import TypedContracts.Proofs.SExp.Reading
import TypedContracts.Proofs.Text.Position

/-!
What the machine finds in the first part of a text, whatever comes behind it. A part that the
grammar describes leaves the machine as it was, further on by just that part; what is left to read
is then read from the position behind it.
-/
namespace TypedContracts.SExp
open TypedContracts.Text

variable {start pos mark : Position} {bytes : List UInt8} {cs rest : List Char}

theorem scan_stopped (pos : Position) (cs : List Char) : scan pos .stopped cs = [] := by
  induction cs generalizing pos with
  | nil => rfl
  | cons c cs ih => exact ih (pos.after c)

theorem scan_blank {c : Char} (blank : isBlank c = true) (pos : Position) (cs : List Char) :
    scan pos .between (c :: cs) = scan (pos.after c) .between cs := by
  simp [scan, step, begin, blank]

theorem scan_blanks {gap : List Char} (blanks : Blanks gap) (pos : Position) (cs : List Char) :
    scan pos .between (gap ++ cs) = scan (pos.along gap) .between cs := by
  induction gap generalizing pos with
  | nil => rfl
  | cons c gap ih =>
    rw [List.cons_append, scan_blank (blanks c List.mem_cons_self),
      ih fun d member => blanks d (List.mem_cons_of_mem c member)]
    rfl

theorem scan_opening (pos : Position) (cs : List Char) :
    scan pos .between ('(' :: cs) = ⟨pos, .opening⟩ :: scan (pos.after '(') .between cs := by
  have solid : isBlank '(' = false := by decide
  simp [scan, step, begin, solid]

theorem scan_closing (pos : Position) (cs : List Char) :
    scan pos .between (')' :: cs) = ⟨pos, .closing⟩ :: scan (pos.after ')') .between cs := by
  have solid : isBlank ')' = false := by decide
  simp [scan, step, begin, solid]

theorem scan_quote (pos : Position) (cs : List Char) :
    scan pos .between ('"' :: cs) = scan (pos.after '"') (.quoted pos [] .plain) cs := by
  have solid : isBlank '"' = false := by decide
  simp [scan, step, begin, solid]

theorem scan_bare {w : List Char} (word : ∀ c ∈ w, WordChar c) (apart : Apart rest)
    (start pos : Position) (read : List Char) : scan pos (.bare start read) (w ++ rest) =
      ⟨start, bareAtom (w.reverse ++ read)⟩ :: scan (pos.along w) .between rest := by
  induction w generalizing pos read with
  | nil =>
    cases rest with
    | nil => rfl
    | cons c rest =>
      have delimiter := (delimiter_iff c).mpr (apart_cons.mp apart)
      simp [scan, step, delimiter, Position.along]
  | cons c w ih =>
    obtain ⟨here, later⟩ := List.forall_mem_cons.mp word
    have inside := (not_delimiter_iff c).mpr here
    have next := ih later (pos.after c) (c :: read)
    simpa [scan, step, inside, Position.along] using next

theorem scan_word {w : List Char} (bare : Word w) (apart : Apart rest) (pos : Position) :
    scan pos .between (w ++ rest) =
      ⟨pos, .atom (String.ofList w)⟩ :: scan (pos.along w) .between rest := by
  obtain ⟨present, word⟩ := bare
  cases w with
  | nil => exact absurd rfl present
  | cons c w =>
    obtain ⟨⟨solid, opening, closing, quote⟩, later⟩ := List.forall_mem_cons.mp word
    have inside := scan_bare later apart pos (pos.after c) [c]
    simpa [scan, step, begin, solid, opening, closing, quote, bareAtom, Position.along] using inside

theorem scan_decimal {a b c : Char} (digits : ∀ d ∈ [a, b, c], Digits.isDecimal d = true)
    (start pos mark : Position) (bytes : List UInt8) (cs : List Char) :
    scan pos (.quoted start bytes (.escaped mark)) (a :: b :: c :: cs) =
      if 255 < decimalByte a b c then
        [⟨start, .fault (.escapeOutOfRange (String.ofList [a, b, c]) mark)⟩]
      else scan (pos.along [a, b, c])
        (.quoted start (UInt8.ofNat (decimalByte a b c) :: bytes) .plain) cs := by
  obtain ⟨first, second, third⟩ : Digits.isDecimal a = true ∧ Digits.isDecimal b = true ∧
      Digits.isDecimal c = true := by simpa using digits
  obtain ⟨newline, _, simple⟩ := decimal_class first
  by_cases above : 255 < decimalByte a b c <;>
    simp [scan, step, escapeStep, decimalStep, simple, newline, first, second, third, above,
      numeral_three, halt, scan_stopped, Position.along]

theorem scan_escape {name : List Char} {byte : UInt8} (names : Escape name byte)
    (start pos mark : Position) (bytes : List UInt8) (cs : List Char) :
    scan pos (.quoted start bytes (.escaped mark)) (name ++ cs) =
      scan (pos.along name) (.quoted start (byte :: bytes) .plain) cs := by
  rcases escape_cases names with ⟨c, rfl, simple⟩ | ⟨a, b, c, rfl, digits, bound, rfl⟩ |
    ⟨a, b, rfl, digits, rfl⟩
  · simp [scan, step, escapeStep, simple, Position.along]
  · exact (scan_decimal digits start pos mark bytes cs).trans (if_neg (Nat.not_lt.mpr bound))
  · obtain ⟨first, second⟩ : Digits.isHexadecimal a = true ∧ Digits.isHexadecimal b = true := by
      simpa using digits
    have plain : simpleEscape? 'x' = none ∧ Digits.isDecimal 'x' = false := by decide
    simp [scan, step, escapeStep, hexadecimalStep, plain, first, second, hexadecimal_byte digits,
      Position.along]

theorem scan_continued (solid : ∀ c ∈ rest.head?, isGap c = false) (start pos : Position)
    (bytes : List UInt8) : scan pos (.quoted start bytes .continued) rest =
      scan pos (.quoted start bytes .plain) rest := by
  cases rest with
  | nil => rfl
  | cons c rest =>
    have other : ¬(c = ' ' ∨ c = '\t') := by simpa [isGap] using solid c rfl
    simp [scan, step, other]

theorem scan_gap {gap : List Char} (gaps : ∀ c ∈ gap, isGap c = true) (start pos : Position)
    (bytes : List UInt8) (rest : List Char) :
    scan pos (.quoted start bytes .continued) (gap ++ rest) =
      scan (pos.along gap) (.quoted start bytes .continued) rest := by
  induction gap generalizing pos with
  | nil => rfl
  | cons c gap ih =>
    obtain ⟨here, later⟩ := List.forall_mem_cons.mp gaps
    have gap : c = ' ' ∨ c = '\t' := by simpa [isGap] using here
    have next := ih later (pos.after c)
    simpa [scan, step, gap, Position.along] using next

theorem scan_spelling {body : List Char} {found : List UInt8} (spelled : Spelling body found)
    (solid : ∀ c ∈ rest.head?, isGap c = false) (start pos : Position) (bytes : List UInt8) :
    scan pos (.quoted start bytes .plain) (body ++ rest) =
      scan (pos.along body) (.quoted start (found.reverse ++ bytes) .plain) rest := by
  induction spelled generalizing pos bytes with
  | nil => rfl
  | @raw c cs found quote backslash _ ih =>
    have next := ih (pos.after c) ((String.utf8EncodeChar c).reverse ++ bytes)
    simpa [scan, step, rawStep, quote, backslash, Position.along] using next
  | @escape name cs byte found names _ ih =>
    have next := ih ((pos.after '\\').along name) (byte :: bytes)
    have read := scan_escape names start (pos.after '\\') (pos.after '\\') bytes (cs ++ rest)
    rw [next] at read
    simpa [scan, step, rawStep, Position.along, List.foldl_append] using read
  | @continuation gap cs found gaps maximal _ ih =>
    have next := ih (((pos.after '\\').after '\n').along gap) bytes
    have head : ∀ c ∈ (cs ++ rest).head?, isGap c = false := by
      cases cs with
      | nil => exact solid
      | cons c cs => exact maximal
    have across := scan_gap gaps start ((pos.after '\\').after '\n') bytes (cs ++ rest)
    rw [scan_continued head, next] at across
    have plain : simpleEscape? '\n' = none := by decide
    simpa [scan, step, rawStep, escapeStep, plain, Position.along, List.foldl_append] using across

theorem scan_quoted {body : List Char} {found : List UInt8} (spelled : Spelling body found)
    (pos : Position) (rest : List Char) : scan pos .between ('"' :: body ++ '"' :: rest) =
      ⟨pos, .atom (String.ofList (Utf8.decodeLossy found))⟩ ::
        scan (pos.along ('"' :: body ++ ['"'])) .between rest := by
  have solid : ∀ c ∈ ('"' :: rest).head?, isGap c = false := by simp [isGap]
  rw [List.cons_append, scan_quote, scan_spelling spelled solid]
  simp [scan, step, rawStep, quotedAtom, Position.along, List.foldl_append]

theorem scan_lexes {ts : List Token} (lexes : Lexes cs ts) (apart : Apart rest) (pos : Position) :
    ∃ ls, tokens ls = ts ∧
      scan pos .between (cs ++ rest) = ls ++ scan (pos.along cs) .between rest := by
  induction lexes generalizing pos with
  | nil => exact ⟨[], rfl, rfl⟩
  | @blank c cs ts blank _ ih =>
    obtain ⟨ls, same, read⟩ := ih (pos.after c)
    refine ⟨ls, same, ?_⟩
    rw [List.cons_append, scan_blank blank, read]
    rfl
  | opening _ ih =>
    obtain ⟨ls, same, read⟩ := ih (pos.after '(')
    refine ⟨⟨pos, .opening⟩ :: ls, congrArg (Token.opening :: ·) same, ?_⟩
    rw [List.cons_append, scan_opening, read]
    rfl
  | closing _ ih =>
    obtain ⟨ls, same, read⟩ := ih (pos.after ')')
    refine ⟨⟨pos, .closing⟩ :: ls, congrArg (Token.closing :: ·) same, ?_⟩
    rw [List.cons_append, scan_closing, read]
    rfl
  | @word w cs ts bare apartInside _ ih =>
    obtain ⟨ls, same, read⟩ := ih (pos.along w)
    refine ⟨⟨pos, .atom (String.ofList w)⟩ :: ls, congrArg (Token.atom _ :: ·) same, ?_⟩
    rw [List.append_assoc, scan_word bare (apart_append apartInside fun _ => apart), read,
      Position.along_append]
    rfl
  | @quoted body cs found ts spelled _ ih =>
    obtain ⟨ls, same, read⟩ := ih (pos.along ('"' :: body ++ ['"']))
    refine ⟨⟨pos, .atom (String.ofList (Utf8.decodeLossy found))⟩ :: ls,
      congrArg (Token.atom _ :: ·) same, ?_⟩
    have text : '"' :: body ++ '"' :: cs ++ rest = '"' :: body ++ '"' :: (cs ++ rest) := by simp
    rw [text, scan_quoted spelled, read]
    simp [Position.along, List.foldl_append]

theorem scan_items {inner : List Char} {items : List SExp} (row : Items inner items)
    (apart : Apart rest) (pos : Position) : ∃ ls, tokens ls = flatItems items ∧
      scan pos .between (inner ++ rest) = ls ++ scan (pos.along inner) .between rest := by
  have lexes : Lexes inner (flatItems items) := by
    simpa using items_lex row [] [] apart_nil .nil
  exact scan_lexes lexes apart pos

theorem scan_expression {e : List Char} {tree : SExp} (expression : Expression e tree)
    (apart : Word e → Apart rest) (pos : Position) : ∃ ls, tokens ls = flat tree ∧
      scan pos .between (e ++ rest) = ls ++ scan (pos.along e) .between rest := by
  cases expression with
  | word bare => exact ⟨[⟨pos, .atom (String.ofList e)⟩], rfl, scan_word bare (apart bare) pos⟩
  | @quoted body found spelled =>
    refine ⟨[⟨pos, .atom (String.ofList (Utf8.decodeLossy found))⟩], rfl, ?_⟩
    simpa using scan_quoted spelled pos rest
  | @list inner items row =>
    have close : Apart (')' :: rest) := apart_cons.mpr (by decide)
    obtain ⟨ls, same, read⟩ := scan_items row close (pos.after '(')
    refine ⟨⟨pos, .opening⟩ :: (ls ++ [⟨(pos.after '(').along inner, .closing⟩]), ?_, ?_⟩
    · simp [tokens, flat, ← same]
    · have text : '(' :: inner ++ [')'] ++ rest = '(' :: (inner ++ ')' :: rest) := by simp
      rw [text, scan_opening, read, scan_closing]
      simp [Position.along, List.foldl_append]

end TypedContracts.SExp
