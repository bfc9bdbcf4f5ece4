import TypedContracts.Proofs.SExp.Runs

/-!
The first fault of a text that is no expression, described by the characters around it: what stands
in front of it is read in full, and its index is that of the character it points at. No machine
occurs in the description. The machine gets to every fault so described and reports it at the line
and the column of that index.
-/
namespace TypedContracts.SExp
open TypedContracts.Text

/-- A first part of a text that may still go on to a whole expression: blanks, and behind them
brackets that are open, each with the items so far of its list. -/
inductive Unfinished : List Char → Prop where
  | start {blanks : List Char} (blank : Blanks blanks) : Unfinished blanks
  | list {outer inner : List Char} {items : List SExp} (outside : Unfinished outer)
      (inside : Items inner items) : Unfinished (outer ++ '(' :: inner)

/-- What stands behind a backslash names no byte and continues no line, and what is wrong with it.
A number may also end with the text. -/
inductive BadEscape : List Char → (Position → Fault) → Prop where
  | ended : BadEscape [] .unterminatedEscape
  | unknown {c : Char} {rest : List Char} (simple : ∀ byte, ¬Escape [c] byte)
      (newline : c ≠ '\n') (decimal : Digits.isDecimal c = false) (hex : c ≠ 'x') :
      BadEscape (c :: rest) (.invalidEscape c)
  | shortDecimal {digits rest : List Char} (present : 0 < digits.length)
      (few : digits.length < 3) (all : ∀ d ∈ digits, Digits.isDecimal d = true)
      (stop : ∀ c ∈ rest.head?, Digits.isDecimal c = false) :
      BadEscape (digits ++ rest) .incompleteNumber
  | shortHexadecimal {digits rest : List Char} (few : digits.length < 2)
      (all : ∀ d ∈ digits, Digits.isHexadecimal d = true)
      (stop : ∀ c ∈ rest.head?, Digits.isHexadecimal c = false) :
      BadEscape ('x' :: digits ++ rest) .incompleteNumber
  | outOfRange {a b c : Char} {rest : List Char}
      (digits : ∀ d ∈ [a, b, c], Digits.isDecimal d = true)
      (above : 255 < 100 * Digits.value a + 10 * Digits.value b + Digits.value c) :
      BadEscape (a :: b :: c :: rest) (.escapeOutOfRange (String.ofList [a, b, c]))

/-- The first fault of a text and the index of the character it points at. -/
inductive FirstFault : List Char → (Position → Fault) → Nat → Prop where
  | unexpectedClose {before after : List Char} (blanks : Blanks before) :
      FirstFault (before ++ ')' :: after) .unexpectedClose before.length
  /-- The character behind the backslash. -/
  | escape {before body rest : List Char} {bytes : List UInt8} {cause : Position → Fault}
      (unfinished : Unfinished before) (inside : Spelling body bytes)
      (bad : BadEscape rest cause) :
      FirstFault (before ++ '"' :: body ++ '\\' :: rest) cause
        (before ++ '"' :: body ++ ['\\']).length
  /-- The opening quote. -/
  | unterminatedString {before body : List Char} {bytes : List UInt8}
      (unfinished : Unfinished before) (inside : Spelling body bytes) :
      FirstFault (before ++ '"' :: body) .unterminatedString before.length
  /-- The innermost bracket that is open. -/
  | unterminatedList {before inner : List Char} {items : List SExp}
      (unfinished : Unfinished before) (inside : Items inner items) :
      FirstFault (before ++ '(' :: inner) .unterminatedList before.length
  | trailing {before e gap after : List Char} {c : Char} {tree : SExp} (blanks : Blanks before)
      (expression : Expression e tree) (gaps : Blanks gap) (solid : isBlank c = false)
      (apart : Word e → Apart (gap ++ c :: after)) :
      FirstFault (before ++ e ++ gap ++ c :: after) .trailing (before ++ e ++ gap).length

variable {cs before rest : List Char} {cause : Position → Fault} {i : Nat} {ending : Position}

theorem assemble_fault (stack : List Opened) (pos : Position) (fault : Fault) (ls : List Lexeme) :
    assemble ending stack (⟨pos, .fault fault⟩ :: ls) = .error fault := by
  cases stack <;> rfl

theorem assemble_opening (stack : List Opened) (pos : Position) (ls : List Lexeme) :
    assemble ending stack (⟨pos, .opening⟩ :: ls) = assemble ending (⟨pos, []⟩ :: stack) ls := by
  cases stack <;> simp [assemble]

theorem parse_eq_scan (text : String) : parse text =
    single (Scan.start.read text.toList).pos (scan .origin .between text.toList) := by
  rw [← lexemes_eq_scan]
  rfl

/-- An expression is asked for only where a lexeme is left. -/
theorem single_present {ls : List Lexeme} (present : ls ≠ []) :
    single ending ls = assemble ending [] ls := by
  cases ls with
  | nil => exact absurd rfl present
  | cons l ls => rfl

theorem unfinished_read (unfinished : Unfinished before) (apart : Apart rest) :
    ∃ stack, assemble ending [] (scan .origin .between (before ++ rest)) =
      assemble ending stack (scan (Position.origin.along before) .between rest) := by
  induction unfinished generalizing rest with
  | start blanks => exact ⟨[], by rw [scan_blanks blanks]⟩
  | @list outer inner items _ inside ih =>
    obtain ⟨stack, outside⟩ := @ih ('(' :: (inner ++ rest)) (apart_cons.mpr (by decide))
    let start := Position.origin.along outer
    obtain ⟨ls, same, row⟩ := scan_items inside apart (start.after '(')
    refine ⟨Opened.extend ⟨start, []⟩ items :: stack, ?_⟩
    rw [List.append_assoc, List.cons_append, outside, scan_opening, assemble_opening, row,
      assemble_items items ls _ _ _ same, Position.along_append]
    rfl

theorem scan_decimal_cut (stop : ∀ c ∈ rest.head?, Digits.isDecimal c = false)
    (start pos mark : Position) (bytes : List UInt8) (digits : List Char) :
    scan pos (.quoted start bytes (.decimal mark digits)) rest =
      [⟨start, .fault (.incompleteNumber mark)⟩] := by
  cases rest with
  | nil => rfl
  | cons c rest =>
    have other : Digits.isDecimal c = false := stop c rfl
    simp [scan, step, decimalStep, other, halt, scan_stopped]

theorem scan_hexadecimal_cut (stop : ∀ c ∈ rest.head?, Digits.isHexadecimal c = false)
    (start pos mark : Position) (bytes : List UInt8) (digits : List Char) :
    scan pos (.quoted start bytes (.hexadecimal mark digits)) rest =
      [⟨start, .fault (.incompleteNumber mark)⟩] := by
  cases rest with
  | nil => rfl
  | cons c rest =>
    have other : Digits.isHexadecimal c = false := stop c rfl
    simp [scan, step, hexadecimalStep, other, halt, scan_stopped]

theorem scan_bad_escape (bad : BadEscape rest cause) (start pos mark : Position)
    (bytes : List UInt8) : scan pos (.quoted start bytes (.escaped mark)) rest =
      [⟨start, .fault (cause mark)⟩] := by
  cases bad with
  | ended => rfl
  | @unknown c rest simple newline decimal hex =>
    have unnamed : simpleEscape? c = none :=
      Option.eq_none_iff_forall_ne_some.mpr fun byte named => simple byte (simple_escape named)
    simp [scan, step, escapeStep, unnamed, newline, decimal, hex, halt, scan_stopped]
  | @shortDecimal digits rest present few all stop =>
    have cut := scan_decimal_cut stop start
    rcases digits with _ | ⟨a, _ | ⟨b, _ | ⟨c, more⟩⟩⟩
    · simp at present
    · have first := all a (by simp)
      obtain ⟨newline, _, simple⟩ := decimal_class first
      simp [scan, step, escapeStep, simple, newline, first, cut]
    · have first := all a (by simp)
      have second := all b (by simp)
      obtain ⟨newline, _, simple⟩ := decimal_class first
      simp [scan, step, escapeStep, decimalStep, simple, newline, first, second, cut]
    · simp only [List.length_cons] at few
      omega
  | @shortHexadecimal digits rest few all stop =>
    have cut := scan_hexadecimal_cut stop start
    have plain : simpleEscape? 'x' = none ∧ Digits.isDecimal 'x' = false := by decide
    rcases digits with _ | ⟨a, _ | ⟨b, more⟩⟩
    · simp [scan, step, escapeStep, plain, cut]
    · have first := all a (by simp)
      simp [scan, step, escapeStep, hexadecimalStep, plain, first, cut]
    · simp only [List.length_cons] at few
      omega
  | @outOfRange a b c rest digits above =>
    exact (scan_decimal digits start pos mark bytes rest).trans (if_pos above)

def Mode.start? : Mode → Option Position
  | .bare start _ => some start
  | .quoted start _ _ => some start
  | .between => none
  | .stopped => none

theorem raw_step_head (start pos : Position) (bytes : List UInt8) (c : Char) :
    (∃ token more, (rawStep start bytes pos c).1 = ⟨start, token⟩ :: more) ∨
      (rawStep start bytes pos c).1 = [] ∧ (rawStep start bytes pos c).2.start? = some start := by
  unfold rawStep
  split
  · exact .inl ⟨_, [], rfl⟩
  split <;> exact .inr ⟨rfl, rfl⟩

theorem step_head {mode : Mode} {start : Position} (reading : mode.start? = some start)
    (pos : Position) (c : Char) :
    (∃ token more, (step pos c mode).1 = ⟨start, token⟩ :: more) ∨
      (step pos c mode).1 = [] ∧ (step pos c mode).2.start? = some start := by
  match mode, reading with
  | .bare _ read, rfl =>
    simp only [step]
    split
    · exact .inl ⟨_, _, rfl⟩
    · exact .inr ⟨rfl, rfl⟩
  | .quoted _ bytes .plain, rfl => exact raw_step_head start pos bytes c
  | .quoted _ bytes .continued, rfl =>
    simp only [step]
    split
    · exact .inr ⟨rfl, rfl⟩
    · exact raw_step_head start pos bytes c
  | .quoted _ bytes (.escaped mark), rfl =>
    simp only [step, escapeStep, halt]
    grind [Mode.start?]
  | .quoted _ bytes (.decimal mark digits), rfl =>
    simp only [step, decimalStep, halt]
    grind [Mode.start?]
  | .quoted _ bytes (.hexadecimal mark digits), rfl =>
    simp only [step, hexadecimalStep, halt]
    grind [Mode.start?]

theorem scan_head {mode : Mode} {start : Position} (reading : mode.start? = some start)
    (pos : Position) (cs : List Char) :
    ∃ token more, scan pos mode cs = ⟨start, token⟩ :: more := by
  induction cs generalizing pos mode with
  | nil =>
    match mode, reading with
    | .bare _ _, rfl => exact ⟨_, _, rfl⟩
    | .quoted _ _ body, rfl => cases body <;> exact ⟨_, _, rfl⟩
  | cons c cs ih =>
    rcases step_head reading pos c with ⟨token, more, found⟩ | ⟨nothing, still⟩
    · exact ⟨token, more ++ scan (pos.after c) (step pos c mode).2 cs, by simp [scan, found]⟩
    · simpa [scan, nothing] using ih still (pos.after c)

theorem scan_solid {c : Char} (solid : isBlank c = false) (pos : Position) (cs : List Char) :
    ∃ token more, scan pos .between (c :: cs) = ⟨pos, token⟩ :: more := by
  by_cases opening : c = '('
  · subst opening
    exact ⟨_, _, scan_opening pos cs⟩
  by_cases closing : c = ')'
  · subst closing
    exact ⟨_, _, scan_closing pos cs⟩
  by_cases quote : c = '"'
  · subst quote
    rw [scan_quote]
    exact scan_head rfl _ cs
  · have word : scan pos .between (c :: cs) = scan (pos.after c) (.bare pos [c]) cs := by
      simp [scan, step, begin, solid, opening, closing, quote]
    rw [word]
    exact scan_head rfl _ cs

/-- Every fault so described is the one that reading reports, at the place of its index. -/
theorem first_fault_read (fault : FirstFault cs cause i) :
    assemble ending [] (scan .origin .between cs) = .error (cause (placeAt cs i)) := by
  cases fault with
  | @unexpectedClose before after blanks =>
    rw [place_behind, scan_blanks blanks, scan_closing]
    rfl
  | @escape before body rest bytes cause unfinished inside bad =>
    have split : before ++ '"' :: body ++ '\\' :: rest =
        before ++ '"' :: (body ++ '\\' :: rest) := by simp
    have place : placeAt (before ++ '"' :: body ++ '\\' :: rest)
        (before ++ '"' :: body ++ ['\\']).length =
          (((Position.origin.along before).after '"').along body).after '\\' := by
      have behind := place_behind (before ++ '"' :: body ++ ['\\']) rest
      simpa [Position.along, List.foldl_append] using behind
    have quote : Apart ('"' :: (body ++ '\\' :: rest)) := apart_cons.mpr (by decide)
    -- Up to the quote only lists are open, and the string is read without a fault to the backslash.
    obtain ⟨stack, outside⟩ := unfinished_read unfinished quote
    have solid : ∀ c ∈ ('\\' :: rest).head?, isGap c = false := by simp [isGap]
    rw [place, split, outside, scan_quote, scan_spelling inside solid]
    have halted := scan_bad_escape bad
    simp [scan, step, rawStep, halted, assemble_fault]
  | @unterminatedString before body bytes unfinished inside =>
    have quote : Apart ('"' :: body) := apart_cons.mpr (by decide)
    obtain ⟨stack, outside⟩ := unfinished_read unfinished quote
    have ended := @scan_spelling [] body bytes inside (by simp)
    rw [List.append_nil] at ended
    rw [place_behind, outside, scan_quote, ended]
    simp [scan, finish, assemble_fault]
  | @unterminatedList before inner items unfinished inside =>
    have bracket : Apart ('(' :: inner) := apart_cons.mpr (by decide)
    obtain ⟨stack, outside⟩ := unfinished_read unfinished bracket
    let start := Position.origin.along before
    obtain ⟨ls, same, row⟩ := scan_items inside apart_nil (start.after '(')
    rw [List.append_nil] at row
    rw [place_behind, outside, scan_opening, assemble_opening, row,
      assemble_items items ls _ _ _ same]
    rfl
  | @trailing before e gap after c tree blanks expression gaps solid apart =>
    have split : before ++ e ++ gap ++ c :: after = before ++ (e ++ (gap ++ c :: after)) := by simp
    have place : placeAt (before ++ e ++ gap ++ c :: after) (before ++ e ++ gap).length =
        ((Position.origin.along before).along e).along gap := by
      rw [place_behind, Position.along_append, Position.along_append]
    obtain ⟨ls, same, first⟩ := scan_expression expression apart (Position.origin.along before)
    obtain ⟨token, more, next⟩ :=
      scan_solid solid (((Position.origin.along before).along e).along gap) after
    rw [place, split, scan_blanks blanks, first, scan_blanks gaps, next, assemble_whole same]
    rfl

end TypedContracts.SExp
