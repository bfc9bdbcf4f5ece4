import TypedContracts.Proofs.Parts
import TypedContracts.Proofs.SExp.Spelling

/-!
The machine over characters finds exactly the tokens of the grammar. `Lexes` is the grammar without
nesting. What a mode still has to read is `Awaits`; one step of the machine keeps it, so a whole run
does.
-/
namespace TypedContracts.SExp
open TypedContracts.Text

inductive Lexes : List Char → List Token → Prop where
  | nil : Lexes [] []
  | blank {c : Char} {cs : List Char} {ts : List Token} (isBlank : isBlank c = true)
      (rest : Lexes cs ts) : Lexes (c :: cs) ts
  | opening {cs : List Char} {ts : List Token} (rest : Lexes cs ts) :
      Lexes ('(' :: cs) (.opening :: ts)
  | closing {cs : List Char} {ts : List Token} (rest : Lexes cs ts) :
      Lexes (')' :: cs) (.closing :: ts)
  | word {w cs : List Char} {ts : List Token} (bare : Word w) (apart : Apart cs)
      (rest : Lexes cs ts) : Lexes (w ++ cs) (.atom (String.ofList w) :: ts)
  | quoted {body cs : List Char} {bytes : List UInt8} {ts : List Token}
      (inside : Spelling body bytes) (rest : Lexes cs ts) :
      Lexes ('"' :: body ++ '"' :: cs) (.atom (String.ofList (Utf8.decodeLossy bytes)) :: ts)

/-- The rest of a string of which `pending` is not yet turned into bytes, and what follows it. -/
def Inside (pending : List Char) (bytes : List UInt8) (cs : List Char) (ts : List Token) : Prop :=
  ∃ body ds found us, cs = body ++ '"' :: ds ∧ Spelling (pending ++ body) found ∧
    ts = quotedAtom (found.reverse ++ bytes) :: us ∧ Lexes ds us

def pending : Body → List Char
  | .plain => []
  | .continued => ['\\', '\n']
  | .escaped _ => ['\\']
  | .decimal _ digits => '\\' :: digits
  | .hexadecimal _ digits => '\\' :: 'x' :: digits

def Awaits : Mode → List Char → List Token → Prop
  | .between, cs, ts => Lexes cs ts
  | .bare _ read, cs, ts => Lexes (read.reverse ++ cs) ts
  | .quoted _ bytes body, cs, ts => Inside (pending body) bytes cs ts
  | .stopped, _, _ => False

def Body.Proper : Body → Prop
  | .decimal _ digits =>
    0 < digits.length ∧ digits.length < 3 ∧ ∀ d ∈ digits, Digits.isDecimal d = true
  | .hexadecimal _ digits => digits.length < 2 ∧ ∀ d ∈ digits, Digits.isHexadecimal d = true
  | .plain => True
  | .continued => True
  | .escaped _ => True

def Mode.Proper : Mode → Prop
  | .bare _ read => Word read.reverse
  | .quoted _ _ body => body.Proper
  | .between => True
  | .stopped => True

theorem maximal_word_unique {v w cs ds : List Char} (hv : Word v) (hw : Word w)
    (hc : Apart cs) (hd : Apart ds) (same : v ++ cs = w ++ ds) : v = w ∧ cs = ds :=
  Parts.parted_unique hv.2 hw.2 hc hd same

theorem word_head {c : Char} {w cs ds : List Char} (bare : Word w) (same : c :: cs = w ++ ds) :
    WordChar c := by
  cases w with
  | nil => exact absurd rfl bare.1
  | cons d w =>
    obtain ⟨rfl, _⟩ := List.cons.inj same
    exact bare.2 c (by simp)

theorem lexes_nil_iff (ts : List Token) : Lexes [] ts ↔ ts = [] := by
  constructor
  · intro h
    generalize eq : ([] : List Char) = cs at h
    cases h with
    | nil => rfl
    | word bare => exact absurd (List.append_eq_nil_iff.mp eq.symm).1 bare.1
    | _ => simp at eq
  · rintro rfl
    exact .nil

theorem lexes_cons_iff (c : Char) (cs : List Char) (ts : List Token) :
    Lexes (c :: cs) ts ↔
    (isBlank c = true ∧ Lexes cs ts) ∨
    (c = '(' ∧ ∃ us, ts = .opening :: us ∧ Lexes cs us) ∨
    (c = ')' ∧ ∃ us, ts = .closing :: us ∧ Lexes cs us) ∨
    (c = '"' ∧ Inside [] [] cs ts) ∨
    (WordChar c ∧ ∃ w ds us, c :: cs = w ++ ds ∧ Word w ∧ Apart ds ∧
      ts = .atom (String.ofList w) :: us ∧ Lexes ds us) := by
  constructor
  · intro h
    generalize eq : c :: cs = text at h
    cases h with
    | nil => simp at eq
    | blank blank rest =>
      obtain ⟨rfl, rfl⟩ := List.cons.inj eq
      exact .inl ⟨blank, rest⟩
    | opening rest =>
      obtain ⟨rfl, rfl⟩ := List.cons.inj eq
      exact .inr (.inl ⟨rfl, _, rfl, rest⟩)
    | closing rest =>
      obtain ⟨rfl, rfl⟩ := List.cons.inj eq
      exact .inr (.inr (.inl ⟨rfl, _, rfl, rest⟩))
    | quoted inside rest =>
      obtain ⟨rfl, rfl⟩ := List.cons.inj eq
      exact .inr (.inr (.inr (.inl ⟨rfl, _, _, _, _, rfl, inside, by simp [quotedAtom], rest⟩)))
    | word bare apart rest =>
      exact .inr (.inr (.inr (.inr ⟨word_head bare eq, _, _, _, rfl, bare, apart, rfl, rest⟩)))
  · intro h
    rcases h with ⟨blank, rest⟩ | ⟨rfl, us, rfl, rest⟩ | ⟨rfl, us, rfl, rest⟩ |
      ⟨rfl, body, ds, found, us, rfl, inside, rfl, rest⟩ | ⟨_, w, ds, us, eq, bare, apart, rfl, rest⟩
    · exact .blank blank rest
    · exact .opening rest
    · exact .closing rest
    · simpa [quotedAtom] using Lexes.quoted inside rest
    · rw [eq]
      exact .word bare apart rest

theorem lexes_opening_iff (cs : List Char) (ts : List Token) :
    Lexes ('(' :: cs) ts ↔ ∃ us, ts = .opening :: us ∧ Lexes cs us := by
  have solid : isBlank '(' = false := by decide
  have bracket : ¬WordChar '(' := by decide
  simp [lexes_cons_iff, solid, bracket]

theorem lexes_closing_iff (cs : List Char) (ts : List Token) :
    Lexes (')' :: cs) ts ↔ ∃ us, ts = .closing :: us ∧ Lexes cs us := by
  have solid : isBlank ')' = false := by decide
  have bracket : ¬WordChar ')' := by decide
  simp [lexes_cons_iff, solid, bracket]

theorem lexes_quote_iff (cs : List Char) (ts : List Token) :
    Lexes ('"' :: cs) ts ↔ Inside [] [] cs ts := by
  have solid : isBlank '"' = false := by decide
  have quote : ¬WordChar '"' := by decide
  simp [lexes_cons_iff, solid, quote]

theorem lexes_blank_iff {c : Char} (blank : isBlank c = true) (cs : List Char) (ts : List Token) :
    Lexes (c :: cs) ts ↔ Lexes cs ts := by
  have other : ∀ d, isBlank d = false → c ≠ d := by
    intro d solid same
    rw [same, solid] at blank
    cases blank
  simp [lexes_cons_iff, blank, blank_not_word blank, other '(' (by decide), other ')' (by decide),
    other '"' (by decide)]

theorem lexes_word_iff {w cs : List Char} (bare : Word w) (apart : Apart cs) (ts : List Token) :
    Lexes (w ++ cs) ts ↔ ∃ us, ts = .atom (String.ofList w) :: us ∧ Lexes cs us := by
  constructor
  · intro h
    cases w with
    | nil => exact absurd rfl bare.1
    | cons c w =>
      obtain ⟨solid, opening, closing, quote⟩ : WordChar c := bare.2 c (by simp)
      have whole := (lexes_cons_iff c (w ++ cs) ts).mp h
      simp only [solid, opening, closing, quote, false_and, false_or, Bool.false_eq_true] at whole
      obtain ⟨_, v, ds, us, eq, hv, hd, rfl, rest⟩ := whole
      obtain ⟨rfl, rfl⟩ := maximal_word_unique bare hv apart hd eq
      exact ⟨us, rfl, rest⟩
  · rintro ⟨us, rfl, rest⟩
    exact .word bare apart rest

theorem inside_nil (held : List Char) (bytes : List UInt8) (ts : List Token) :
    ¬Inside held bytes [] ts := by
  rintro ⟨body, ds, _, _, eq, _⟩
  simp at eq

theorem inside_hold_iff (held : List Char) {c : Char}
    (unfinished : c = '"' → ∀ found, ¬Spelling held found) (bytes : List UInt8) (cs : List Char)
    (ts : List Token) : Inside held bytes (c :: cs) ts ↔ Inside (held ++ [c]) bytes cs ts := by
  constructor
  · rintro ⟨body, ds, found, us, eq, spelling, rfl, rest⟩
    cases body with
    | nil =>
      obtain ⟨rfl, rfl⟩ := List.cons.inj eq
      exact absurd spelling (by simpa using unfinished rfl found)
    | cons d body =>
      obtain ⟨rfl, rfl⟩ := List.cons.inj eq
      exact ⟨body, ds, found, us, rfl, by simpa using spelling, rfl, rest⟩
  · rintro ⟨body, ds, found, us, rfl, spelling, rfl, rest⟩
    exact ⟨c :: body, ds, found, us, rfl, by simpa using spelling, rfl, rest⟩

theorem inside_release_iff {held : List Char} (given : List UInt8)
    (spells : ∀ body found, Spelling (held ++ body) found ↔
      ∃ more, found = given ++ more ∧ Spelling body more)
    (bytes : List UInt8) (cs : List Char) (ts : List Token) :
    Inside held bytes cs ts ↔ Inside [] (given.reverse ++ bytes) cs ts := by
  constructor
  · rintro ⟨body, ds, found, us, rfl, spelling, rfl, rest⟩
    obtain ⟨more, rfl, tail⟩ := (spells body found).mp spelling
    exact ⟨body, ds, more, us, rfl, tail, by simp, rest⟩
  · rintro ⟨body, ds, found, us, rfl, spelling, rfl, rest⟩
    have whole := (spells body (given ++ found)).mpr ⟨found, rfl, spelling⟩
    exact ⟨body, ds, given ++ found, us, rfl, whole, by simp, rest⟩

theorem inside_refused {held : List Char}
    (refused : ∀ body found, ¬Spelling (held ++ body) found) (bytes : List UInt8)
    (cs : List Char) (ts : List Token) : ¬Inside held bytes cs ts := by
  rintro ⟨body, _, found, _, _, spelling, _⟩
  exact refused body found spelling

theorem inside_closing_iff (bytes : List UInt8) (cs : List Char) (ts : List Token) :
    Inside [] bytes ('"' :: cs) ts ↔ ∃ us, ts = quotedAtom bytes :: us ∧ Lexes cs us := by
  constructor
  · rintro ⟨body, ds, found, us, eq, spelling, rfl, rest⟩
    cases body with
    | nil =>
      obtain ⟨_, rfl⟩ := List.cons.inj eq
      generalize nothing : ([] ++ [] : List Char) = text at spelling
      cases spelling with
      | nil => exact ⟨us, rfl, rest⟩
      | _ => simp at nothing
    | cons d body =>
      obtain ⟨rfl, rfl⟩ := List.cons.inj eq
      exact absurd spelling (spelling_no_quote _ _)
  · rintro ⟨us, rfl, rest⟩
    exact ⟨[], cs, [], us, rfl, .nil, rfl, rest⟩

def tokens (ls : List Lexeme) : List Token := ls.map (·.token)

/-- After `found` and into `mode`, the tokens `ts` are what the characters `cs` still give. -/
def Leaves (result : List Lexeme × Mode) (cs : List Char) (ts : List Token) : Prop :=
  ∃ us, ts = tokens result.1 ++ us ∧ Awaits result.2 cs us

theorem begin_keeps (pos : Position) (c : Char) (cs : List Char) (ts : List Token) :
    Lexes (c :: cs) ts ↔ Leaves (begin pos c) cs ts := by
  unfold begin Leaves
  split
  · rename_i blank
    simp [tokens, Awaits, lexes_blank_iff blank]
  split
  · rename_i eq
    subst eq
    simp [tokens, Awaits, lexes_opening_iff]
  split
  · rename_i eq
    subst eq
    simp [tokens, Awaits, lexes_closing_iff]
  split
  · rename_i eq
    subst eq
    simp [tokens, Awaits, pending, lexes_quote_iff]
  · simp [tokens, Awaits]

theorem raw_step_keeps (start pos : Position) (bytes : List UInt8) (c : Char) (cs : List Char)
    (ts : List Token) :
    Inside [] bytes (c :: cs) ts ↔ Leaves (rawStep start bytes pos c) cs ts := by
  unfold rawStep Leaves
  split
  · rename_i eq
    subst eq
    simp [tokens, Awaits, inside_closing_iff]
  split
  · rename_i quote eq
    subst eq
    simp [tokens, Awaits, pending, inside_hold_iff]
  · rename_i quote backslash
    have held := inside_hold_iff [] (fun eq => absurd eq quote) bytes cs ts
    have spells := spelling_raw_iff quote backslash
    rw [held, inside_release_iff (String.utf8EncodeChar c) (by simpa using spells)]
    simp [tokens, Awaits, pending]

theorem halt_leaves_nothing (start : Position) (cause : Fault) (cs : List Char) (ts : List Token) :
    ¬Leaves (halt start cause) cs ts := by
  rintro ⟨_, _, stopped⟩
  exact stopped

theorem escape_step_keeps (start mark : Position) (bytes : List UInt8) (c : Char) (cs : List Char)
    (ts : List Token) :
    Inside ['\\'] bytes (c :: cs) ts ↔ Leaves (escapeStep start bytes mark c) cs ts := by
  rw [inside_hold_iff ['\\'] (fun _ => spelling_no_lone_backslash)]
  unfold escapeStep
  split
  · rename_i byte simple
    rw [inside_release_iff [byte] (by simpa using spelling_simple_iff simple)]
    simp [Leaves, tokens, Awaits, pending]
  · rename_i simple
    split
    · rename_i eq
      subst eq
      simp [Leaves, tokens, Awaits, pending]
    split
    · simp [Leaves, tokens, Awaits, pending]
    split
    · rename_i eq
      subst eq
      simp [Leaves, tokens, Awaits, pending]
    · rename_i newline decimal hex
      refine iff_of_false (inside_refused ?_ bytes cs ts) (halt_leaves_nothing _ _ cs ts)
      intro body found h
      obtain ⟨d, ds, eq, h⟩ := spelling_backslash_cases h
      obtain ⟨rfl, _⟩ := List.cons.inj eq
      rcases h with ⟨byte, _, named, _⟩ | ⟨eq, _⟩ | ⟨a, b, _, _, _, digits, _⟩ | ⟨eq, _⟩
      · simp [simple] at named
      · exact newline eq
      · exact decimal (digits c List.mem_cons_self)
      · exact hex eq

theorem numeral_three (a b c : Char) : Digits.numeral 10 [a, b, c] = decimalByte a b c := by
  simp only [Digits.numeral, List.foldl_cons, List.foldl_nil, decimalByte]
  omega

theorem numeral_two (a b : Char) :
    Digits.numeral 16 [a, b] = 16 * Digits.value a + Digits.value b := by
  simp only [Digits.numeral, List.foldl_cons, List.foldl_nil]
  omega

theorem hexadecimal_value {c : Char} (digit : Digits.isHexadecimal c = true) :
    Digits.value c < 16 := by
  have ordered (a b : Char) : a ≤ b ↔ a.toNat ≤ b.toNat := Iff.rfl
  have ends : '0'.toNat = 48 ∧ '9'.toNat = 57 ∧ 'a'.toNat = 97 ∧ 'f'.toNat = 102 ∧
      'A'.toNat = 65 ∧ 'F'.toNat = 70 := by decide
  simp only [Digits.isHexadecimal, Digits.isDecimal, Bool.or_eq_true, decide_eq_true_eq,
    ordered] at digit
  simp only [Digits.value, Digits.isDecimal, decide_eq_true_eq, ordered]
  split
  · omega
  split <;> omega

/-- Two digits always name a byte. -/
theorem hexadecimal_byte {a b : Char} (digits : ∀ d ∈ [a, b], Digits.isHexadecimal d = true) :
    hexadecimalByte? [a, b] = some (UInt8.ofNat (16 * Digits.value a + Digits.value b)) := by
  have first := digits a List.mem_cons_self
  have second := digits b (by simp)
  have plus : Digits.withoutPlus [a, b] = [a, b] := by
    unfold Digits.withoutPlus
    split
    · exact absurd (digits '+' (by simp_all)) (by decide)
    · rfl
  have bound : 16 * Digits.value a + Digits.value b ≤ 255 := by
    have := hexadecimal_value first
    have := hexadecimal_value second
    omega
  simp [hexadecimalByte?, plus, Digits.hexadecimal?, Digits.numeral?, first, second, numeral_two,
    bound]

theorem decimal_step_keeps (start mark : Position) (bytes : List UInt8) {digits : List Char}
    (present : 0 < digits.length) (few : digits.length < 3)
    (all : ∀ d ∈ digits, Digits.isDecimal d = true) (c : Char) (cs : List Char)
    (ts : List Token) :
    Inside ('\\' :: digits) bytes (c :: cs) ts ↔
      Leaves (decimalStep start bytes mark digits c) cs ts := by
  have unfinished : c = '"' → ∀ found, ¬Spelling ('\\' :: digits) found := by
    intro _ found
    simpa using decimals_refused present few all [] (by simp) found
  rw [inside_hold_iff _ unfinished]
  by_cases digit : Digits.isDecimal c = true
  · match digits, present, few with
    | [a], _, _ =>
      simp [decimalStep, digit, Leaves, tokens, Awaits, pending]
    | [a, b], _, _ =>
      have three : ∀ d ∈ [a, b, c], Digits.isDecimal d = true := by simp_all
      have spells := spelling_decimal_iff three
      simp only [decimalStep, digit, ↓reduceIte, List.cons_append, List.nil_append,
        List.length_cons, List.length_nil, Nat.lt_irrefl, numeral_three]
      by_cases above : 255 < decimalByte a b c
      · simp only [above, ↓reduceIte]
        refine iff_of_false (inside_refused ?_ bytes cs ts) (halt_leaves_nothing _ _ cs ts)
        intro body found h
        have within := ((spells body found).mp h).1
        omega
      · simp only [above, ↓reduceIte]
        have within : decimalByte a b c ≤ 255 := by omega
        rw [inside_release_iff [UInt8.ofNat (decimalByte a b c)] (by simpa [within] using spells)]
        simp [Leaves, tokens, Awaits, pending]
  · simp only [decimalStep, digit]
    refine iff_of_false (inside_refused ?_ bytes cs ts) (halt_leaves_nothing _ _ cs ts)
    intro body found
    have refused := decimals_refused present few all (c :: body) (by simpa using digit) found
    simpa using refused

theorem hexadecimal_step_keeps (start mark : Position) (bytes : List UInt8) {digits : List Char}
    (few : digits.length < 2) (all : ∀ d ∈ digits, Digits.isHexadecimal d = true) (c : Char)
    (cs : List Char) (ts : List Token) :
    Inside ('\\' :: 'x' :: digits) bytes (c :: cs) ts ↔
      Leaves (hexadecimalStep start bytes mark digits c) cs ts := by
  have unfinished : c = '"' → ∀ found, ¬Spelling ('\\' :: 'x' :: digits) found := by
    intro _ found
    simpa using hexadecimals_refused few [] (by simp) found
  rw [inside_hold_iff _ unfinished]
  by_cases digit : Digits.isHexadecimal c = true
  · match digits, few with
    | [], _ => simp [hexadecimalStep, digit, Leaves, tokens, Awaits, pending]
    | [a], _ =>
      have two : ∀ d ∈ [a, c], Digits.isHexadecimal d = true := by simp_all
      have spells := spelling_hexadecimal_iff two
      simp only [hexadecimalStep, digit, ↓reduceIte, List.cons_append, List.nil_append,
        List.length_cons, List.length_nil, Nat.lt_irrefl, hexadecimal_byte two]
      rw [inside_release_iff [UInt8.ofNat (16 * Digits.value a + Digits.value c)]
        (by simpa using spells)]
      simp [Leaves, tokens, Awaits, pending]
  · simp only [hexadecimalStep, digit]
    refine iff_of_false (inside_refused ?_ bytes cs ts) (halt_leaves_nothing _ _ cs ts)
    intro body found
    have refused := hexadecimals_refused few (c :: body) (by simpa using digit) found
    simpa using refused

theorem continued_step_keeps (start pos : Position) (bytes : List UInt8) (c : Char)
    (cs : List Char) (ts : List Token) :
    Inside ['\\', '\n'] bytes (c :: cs) ts ↔
      Leaves (step pos c (.quoted start bytes .continued)) cs ts := by
  simp only [step]
  split
  · rename_i gap
    have blank : isGap c = true := by simpa [isGap] using gap
    have other : c ≠ '"' := by rcases gap with rfl | rfl <;> decide
    rw [inside_hold_iff _ (fun eq => absurd eq other)]
    have spells : ∀ body found, Spelling (['\\', '\n'] ++ [c] ++ body) found ↔
        Spelling (['\\', '\n'] ++ body) found := spelling_gap_iff blank
    have same : Inside (['\\', '\n'] ++ [c]) bytes cs ts ↔ Inside ['\\', '\n'] bytes cs ts := by
      simp only [Inside, spells]
    rw [same]
    simp [Leaves, tokens, Awaits, pending]
  · rename_i gap
    have solid : isGap c = false := by simpa [isGap] using gap
    rw [← raw_step_keeps]
    constructor
    · rintro ⟨body, ds, found, us, eq, spelling, rfl, rest⟩
      have first : ∀ d ∈ body.head?, isGap d = false := by
        cases body <;> simp_all
      exact ⟨body, ds, found, us, eq, (spelling_gap_over_iff first found).mp spelling, rfl, rest⟩
    · rintro ⟨body, ds, found, us, eq, spelling, rfl, rest⟩
      have first : ∀ d ∈ body.head?, isGap d = false := by
        cases body <;> simp_all
      exact ⟨body, ds, found, us, eq, (spelling_gap_over_iff first found).mpr spelling, rfl, rest⟩

theorem bare_step_keeps (start pos : Position) {read : List Char} (bare : Word read.reverse)
    (c : Char) (cs : List Char) (ts : List Token) :
    Lexes (read.reverse ++ c :: cs) ts ↔ Leaves (step pos c (.bare start read)) cs ts := by
  simp only [step]
  split
  · rename_i delimiter
    have apart : Apart (c :: cs) := apart_cons.mpr ((delimiter_iff c).mp delimiter)
    rw [lexes_word_iff bare apart]
    simp only [begin_keeps pos, Leaves, tokens, bareAtom, List.map_cons, List.cons_append]
    constructor
    · rintro ⟨us, rfl, vs, rfl, rest⟩
      exact ⟨vs, rfl, rest⟩
    · rintro ⟨vs, rfl, rest⟩
      exact ⟨_, rfl, vs, rfl, rest⟩
  · simp [Leaves, tokens, Awaits]

/-- What a mode awaits is what one step gives together with what the next mode awaits. -/
theorem step_keeps (pos : Position) (c : Char) {mode : Mode} (proper : mode.Proper)
    (cs : List Char) (ts : List Token) :
    Awaits mode (c :: cs) ts ↔ Leaves (step pos c mode) cs ts := by
  match mode, proper with
  | .between, _ => exact begin_keeps pos c cs ts
  | .bare start read, bare => exact bare_step_keeps start pos bare c cs ts
  | .quoted start bytes .plain, _ => exact raw_step_keeps start pos bytes c cs ts
  | .quoted start bytes .continued, _ => exact continued_step_keeps start pos bytes c cs ts
  | .quoted start bytes (.escaped mark), _ => exact escape_step_keeps start mark bytes c cs ts
  | .quoted start bytes (.decimal mark _), ⟨present, few, all⟩ =>
    exact decimal_step_keeps start mark bytes present few all c cs ts
  | .quoted start bytes (.hexadecimal mark _), ⟨few, all⟩ =>
    exact hexadecimal_step_keeps start mark bytes few all c cs ts
  | .stopped, _ => simp [step, Leaves, Awaits]

theorem begin_proper (pos : Position) (c : Char) : (begin pos c).2.Proper := by
  unfold begin
  split
  · trivial
  split
  · trivial
  split
  · trivial
  split
  · trivial
  · rename_i blank opening closing quote
    have word : WordChar c := ⟨by simpa using blank, opening, closing, quote⟩
    exact ⟨by simp, by simpa using word⟩

theorem raw_step_proper (start pos : Position) (bytes : List UInt8) (c : Char) :
    (rawStep start bytes pos c).2.Proper := by
  unfold rawStep
  split
  · trivial
  split <;> trivial

theorem escape_step_proper (start mark : Position) (bytes : List UInt8) (c : Char) :
    (escapeStep start bytes mark c).2.Proper := by
  unfold escapeStep
  split
  · trivial
  split
  · trivial
  split
  · rename_i digit
    exact ⟨Nat.one_pos, by simp, by simpa using digit⟩
  split
  · exact ⟨by simp, by simp⟩
  · trivial

theorem decimal_step_proper (start mark : Position) (bytes : List UInt8) {digits : List Char}
    (all : ∀ d ∈ digits, Digits.isDecimal d = true) (c : Char) :
    (decimalStep start bytes mark digits c).2.Proper := by
  simp only [decimalStep]
  split
  · rename_i digit
    split
    · rename_i few
      exact ⟨by simp, few, List.forall_mem_append.mpr ⟨all, by simpa using digit⟩⟩
    split <;> trivial
  · trivial

theorem hexadecimal_step_proper (start mark : Position) (bytes : List UInt8) {digits : List Char}
    (all : ∀ d ∈ digits, Digits.isHexadecimal d = true) (c : Char) :
    (hexadecimalStep start bytes mark digits c).2.Proper := by
  simp only [hexadecimalStep]
  split
  · rename_i digit
    split
    · rename_i few
      exact ⟨few, List.forall_mem_append.mpr ⟨all, by simpa using digit⟩⟩
    split <;> trivial
  · trivial

theorem step_proper (pos : Position) (c : Char) {mode : Mode} (proper : mode.Proper) :
    (step pos c mode).2.Proper := by
  match mode, proper with
  | .between, _ => exact begin_proper pos c
  | .bare start read, bare =>
    simp only [step]
    split
    · exact begin_proper pos c
    · rename_i delimiter
      have word : WordChar c := (not_delimiter_iff c).mp (by simpa using delimiter)
      refine ⟨by simp, ?_⟩
      rw [List.reverse_cons]
      exact List.forall_mem_append.mpr ⟨bare.2, by simpa using word⟩
  | .quoted start bytes .plain, _ => exact raw_step_proper start pos bytes c
  | .quoted start bytes .continued, _ =>
    simp only [step]
    split
    · trivial
    · exact raw_step_proper start pos bytes c
  | .quoted start bytes (.escaped mark), _ => exact escape_step_proper start mark bytes c
  | .quoted start bytes (.decimal mark _), ⟨_, _, all⟩ =>
    exact decimal_step_proper start mark bytes all c
  | .quoted start bytes (.hexadecimal mark _), ⟨_, all⟩ =>
    exact hexadecimal_step_proper start mark bytes all c
  | .stopped, _ => trivial

def scan (pos : Position) (mode : Mode) : List Char → List Lexeme
  | [] => finish mode
  | c :: cs => (step pos c mode).1 ++ scan (pos.after c) (step pos c mode).2 cs

theorem read_lexemes (cs : List Char) (s : Scan) :
    (s.read cs).lexemes = s.found.reverse ++ scan s.pos s.mode cs := by
  induction cs generalizing s with
  | nil => rfl
  | cons c cs ih =>
    have next := ih (s.push c)
    rw [show s.read (c :: cs) = (s.push c).read cs from rfl, next]
    simp [Scan.push, scan]

theorem lexemes_eq_scan (cs : List Char) : lexemes cs = scan .origin .between cs :=
  read_lexemes cs .start

def Token.isFault : Token → Bool
  | .fault _ => true
  | _ => false

def Clean (ts : List Token) : Prop := ∀ t ∈ ts, t.isFault = false

theorem step_stops {pos : Position} {c : Char} {mode : Mode}
    (stops : (step pos c mode).2 = .stopped) :
    mode = .stopped ∨ ¬Clean (tokens (step pos c mode).1) := by
  have faulty (start : Position) (cause : Fault) : ¬Clean (tokens (halt start cause).1) := by
    intro clean
    simpa [Token.isFault] using clean (.fault cause) (by simp [halt, tokens])
  have started (pos : Position) (c : Char) : (begin pos c).2 ≠ .stopped := by
    unfold begin
    grind
  have raw (start pos : Position) (bytes : List UInt8) (c : Char) :
      (rawStep start bytes pos c).2 ≠ .stopped := by
    unfold rawStep
    grind
  cases mode with
  | between => exact absurd stops (started pos c)
  | bare start read =>
    simp only [step] at stops
    split at stops
    · exact absurd stops (started pos c)
    · simp at stops
  | quoted start bytes body =>
    right
    cases body with
    | plain => exact absurd stops (raw start pos bytes c)
    | continued =>
      simp only [step] at stops
      split at stops
      · simp at stops
      · exact absurd stops (raw start pos bytes c)
    | escaped mark =>
      simp only [step, escapeStep] at stops ⊢
      grind
    | decimal mark digits =>
      simp only [step, decimalStep] at stops ⊢
      grind
    | hexadecimal mark digits =>
      simp only [step, hexadecimalStep] at stops ⊢
      grind
  | stopped => exact .inl rfl

theorem finish_keeps {mode : Mode} (proper : mode.Proper) (running : mode ≠ .stopped)
    {ts : List Token} (clean : Clean ts) : Awaits mode [] ts ↔ tokens (finish mode) = ts := by
  have unfinished (start : Position) (bytes : List UInt8) (body : Body) (cause : Fault) :
      Awaits (.quoted start bytes body) [] ts ↔ tokens [⟨start, .fault cause⟩] = ts := by
    refine iff_of_false (inside_nil _ _ _) ?_
    rintro rfl
    simpa [Token.isFault] using clean (.fault cause) (by simp [tokens])
  match mode, proper with
  | .between, _ => simp [Awaits, finish, tokens, lexes_nil_iff, eq_comm]
  | .bare start read, bare =>
    simp only [Awaits, lexes_word_iff bare apart_nil, finish, tokens, lexes_nil_iff, bareAtom]
    simp [eq_comm]
  | .quoted start bytes .plain, _ => exact unfinished start bytes _ _
  | .quoted start bytes .continued, _ => exact unfinished start bytes _ _
  | .quoted start bytes (.escaped _), _ => exact unfinished start bytes _ _
  | .quoted start bytes (.decimal _ _), _ => exact unfinished start bytes _ _
  | .quoted start bytes (.hexadecimal _ _), _ => exact unfinished start bytes _ _
  | .stopped, _ => exact absurd rfl running

/-- The machine gives a row of tokens without a fault exactly when the mode awaits it. -/
theorem scan_iff_awaits (cs : List Char) (pos : Position) {mode : Mode} (proper : mode.Proper)
    (running : mode ≠ .stopped) {ts : List Token} (clean : Clean ts) :
    tokens (scan pos mode cs) = ts ↔ Awaits mode cs ts := by
  induction cs generalizing pos mode ts with
  | nil => exact (finish_keeps proper running clean).symm
  | cons c cs ih =>
    have next := step_proper pos c proper
    rw [step_keeps pos c proper]
    have split : tokens (scan pos mode (c :: cs)) =
        tokens (step pos c mode).1 ++ tokens (scan (pos.after c) (step pos c mode).2 cs) := by
      simp [tokens, scan]
    rw [split]
    constructor
    · rintro rfl
      have found : Clean (tokens (step pos c mode).1) := fun t member =>
        clean t (List.mem_append_left _ member)
      have goesOn : (step pos c mode).2 ≠ .stopped := fun stops =>
        (step_stops stops).elim running (absurd found)
      have rest : Clean (tokens (scan (pos.after c) (step pos c mode).2 cs)) := fun t member =>
        clean t (List.mem_append_right _ member)
      exact ⟨_, rfl, (ih (pos.after c) next goesOn rest).mp rfl⟩
    · rintro ⟨us, rfl, awaits⟩
      have goesOn : (step pos c mode).2 ≠ .stopped := by
        intro stops
        rw [stops] at awaits
        exact awaits
      have rest : Clean us := fun t member => clean t (List.mem_append_right _ member)
      rw [(ih (pos.after c) next goesOn rest).mpr awaits]

theorem lexemes_iff_lexes (cs : List Char) {ts : List Token} (clean : Clean ts) :
    tokens (lexemes cs) = ts ↔ Lexes cs ts := by
  have started : Mode.between.Proper := trivial
  rw [lexemes_eq_scan]
  exact scan_iff_awaits cs .origin started (by simp) clean

end TypedContracts.SExp
