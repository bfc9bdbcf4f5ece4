import Mathlib
import TypedContracts.Json.Lexeme
import TypedContracts.Json.Printer

/-!
The lexemes of printed JSON. `lexed` is the machine from any mode, without its accumulator; what the
printer writes for a text or a literal name is one lexeme, whatever follows it.
-/
namespace TypedContracts.Json
open TypedContracts.Text

def lexed (mode : LexMode) : List Char → List Lexeme
  | [] => lexFinish mode
  | c :: cs => (lexStep c mode).1 ++ lexed (lexStep c mode).2 cs

theorem lexemes_from (cs : List Char) (found : List Lexeme) (mode : LexMode) :
    (let (later, last) := cs.foldl (fun (s : List Lexeme × LexMode) c =>
      let (next, mode) := lexStep c s.2
      (next.reverse ++ s.1, mode)) (found, mode)
    later.reverse ++ lexFinish last) = found.reverse ++ lexed mode cs := by
  induction cs generalizing found mode with
  | nil => rfl
  | cons c cs ih =>
    have step := ih ((lexStep c mode).1.reverse ++ found) (lexStep c mode).2
    simpa [lexed] using step

theorem lexemes_eq_lexed (cs : List Char) : lexemes cs = lexed .between cs :=
  lexemes_from cs [] .between

theorem lexed_blank {c : Char} (blank : isJsonBlank c = true) (cs : List Char) :
    lexed .between (c :: cs) = lexed .between cs := by
  simp [lexed, lexStep, beginLexeme, blank]

theorem lexed_newline (level : Nat) (cs : List Char) :
    lexed .between (newline level ++ cs) = lexed .between cs := by
  have spaces : ∀ n, lexed .between (List.replicate n ' ' ++ cs) = lexed .between cs := by
    intro n
    induction n with
    | zero => rfl
    | succ n ih =>
      rw [List.replicate_succ, List.cons_append, lexed_blank (by decide), ih]
  rw [newline, List.cons_append, lexed_blank (by decide), spaces]

theorem gathered_chars (cs : List Char) (after : List Char) :
    (cs.map Char.toNat).reverse.foldlM Surrogates.Gathered.precede? ⟨none, after⟩ =
      some ⟨none, cs ++ after⟩ := by
  induction cs generalizing after with
  | nil => rfl
  | cons c cs ih =>
    have whole : ¬(0xd800 ≤ c.toNat ∧ c.toNat ≤ 0xdfff) := by
      have valid := c.valid
      simp only [UInt32.isValidChar, Nat.isValidChar] at valid
      simp only [Char.toNat]
      omega
    have first : Surrogates.isFirstHalf c.toNat = false := by
      simp [Surrogates.isFirstHalf]
      omega
    have second : Surrogates.isSecondHalf c.toNat = false := by
      simp [Surrogates.isSecondHalf]
      omega
    simp [List.foldlM_append, ih, Surrogates.Gathered.precede?, first, second]

theorem text_of_chars (cs : List Char) :
    Surrogates.text? (cs.map Char.toNat).reverse = some (String.ofList cs) := by
  unfold Surrogates.text?
  rw [gathered_chars cs [], List.append_nil]
  rfl

theorem lowHexadecimal_numeral : ∀ n < 0x20, (lowHexadecimal n).length = 4 ∧
    (∀ d ∈ lowHexadecimal n, Digits.isHexadecimal d = true) ∧
    Digits.numeral 16 (lowHexadecimal n) = n := by
  have all : (List.range 0x20).all (fun n => (lowHexadecimal n).length == 4 &&
      (lowHexadecimal n).all Digits.isHexadecimal &&
      Digits.numeral 16 (lowHexadecimal n) == n) = true := by decide
  intro n control
  have here := List.all_eq_true.mp all n (List.mem_range.mpr control)
  simpa [and_assoc] using here

theorem lexed_unit {ds : List Char} (four : ds.length = 4)
    (digits : ∀ d ∈ ds, Digits.isHexadecimal d = true) (read : List Nat) (cs : List Char) :
    lexed (.text read (.digits [])) (ds ++ cs) =
      lexed (.text (Digits.numeral 16 ds :: read) .plain) cs := by
  match ds, four with
  | [a, b, c, d], _ =>
    have ha := digits a (by simp)
    have hb := digits b (by simp)
    have hc := digits c (by simp)
    have hd := digits d (by simp)
    simp [lexed, lexStep, textStep, ha, hb, hc, hd]

theorem lexed_escaped {name value : Char} (names : shortEscape? name = some value)
    (read : List Nat) (cs : List Char) :
    lexed (.text read .plain) ('\\' :: name :: cs) = lexed (.text (value.toNat :: read) .plain) cs := by
  have other : name ≠ 'u' := by
    rintro rfl
    cases names
  simp [lexed, lexStep, textStep, other, names]

theorem escapeChar_cases (c : Char) :
    (∃ name, escapeChar c = ['\\', name] ∧ shortEscape? name = some c) ∨
    (c.toNat < 0x20 ∧ escapeChar c = ['\\', 'u'] ++ lowHexadecimal c.toNat) ∨
    (c ≠ '"' ∧ c ≠ '\\' ∧ ¬c.toNat < 0x20 ∧ escapeChar c = [c]) := by
  by_cases short : c ∈ ['"', '\\', '\n', '\r', '\t', Char.ofNat 8, Char.ofNat 12]
  · simp only [List.mem_cons, List.not_mem_nil, or_false] at short
    rcases short with rfl | rfl | rfl | rfl | rfl | rfl | rfl <;> exact .inl ⟨_, rfl, rfl⟩
  · simp only [List.mem_cons, List.not_mem_nil, or_false, not_or] at short
    obtain ⟨quote, backslash, newline, carriage, tab, backspace, feed⟩ := short
    simp only [escapeChar, quote, backslash, newline, carriage, tab, backspace, feed, if_false]
    by_cases control : c.toNat < 0x20
    · exact .inr (.inl ⟨control, by simp [control]⟩)
    · exact .inr (.inr ⟨quote, backslash, control, by simp [control]⟩)

theorem lexed_escapeChar (c : Char) (read : List Nat) (cs : List Char) :
    lexed (.text read .plain) (escapeChar c ++ cs) = lexed (.text (c.toNat :: read) .plain) cs := by
  rcases escapeChar_cases c with ⟨name, escape, names⟩ | ⟨control, escape⟩ |
    ⟨quote, backslash, printable, escape⟩
  · rw [escape]
    exact lexed_escaped names read cs
  · obtain ⟨four, digits, number⟩ := lowHexadecimal_numeral c.toNat control
    have unit := lexed_unit four digits read cs
    rw [number] at unit
    rw [escape]
    simpa [lexed, lexStep, textStep] using unit
  · rw [escape]
    simp [lexed, lexStep, textStep, quote, backslash, printable]

theorem lexed_text (s : String) (cs : List Char) :
    lexed .between (textChars s ++ cs) = .text (some s) :: lexed .between cs := by
  have body : ∀ (chars : List Char) (read : List Nat),
      lexed (.text read .plain) (chars.flatMap escapeChar ++ '"' :: cs) =
        .text (Surrogates.text? ((chars.map Char.toNat).reverse ++ read)) :: lexed .between cs := by
    intro chars
    induction chars with
    | nil =>
      intro read
      simp [lexed, lexStep, textStep]
    | cons c chars ih =>
      intro read
      rw [List.flatMap_cons, List.append_assoc, lexed_escapeChar, ih]
      simp
  have whole := body s.toList []
  rw [List.append_nil, text_of_chars, String.ofList_toList] at whole
  have opening : beginLexeme '"' = ([], .text [] .plain) := rfl
  simp only [textChars, List.append_assoc, List.cons_append, List.nil_append, lexed, lexStep,
    opening]
  exact whole

/-- What may follow a word without lengthening it. -/
def Ends (cs : List Char) : Prop := ∀ c ∈ cs.head?, isWordChar c = false

theorem lexed_word {word : List Char} (read : List Char) (chars : ∀ c ∈ word, isWordChar c = true)
    {cs : List Char} (ends : Ends cs) :
    lexed (.word read) (word ++ cs) = wordLexeme (word.reverse ++ read) :: lexed .between cs := by
  induction word generalizing read with
  | nil =>
    cases cs with
    | nil => rfl
    | cons c cs =>
      have stops : isWordChar c = false := ends c rfl
      simp [lexed, lexStep, stops]
  | cons c word ih =>
    have first := chars c List.mem_cons_self
    have rest := ih (c :: read) fun d member => chars d (List.mem_cons_of_mem c member)
    simpa [lexed, lexStep, first] using rest

end TypedContracts.Json
