import TypedContracts.Proofs.SExp.Grammar

/-!
What the inside of a string can begin with. `Spelling` is taken apart at its first character, and
behind a backslash at the second one; each kind of escape then has one law.
-/
namespace TypedContracts.SExp
open TypedContracts.Text

theorem spelling_cases {c : Char} {cs : List Char} {bytes : List UInt8}
    (h : Spelling (c :: cs) bytes) :
    (c ≠ '"' ∧ c ≠ '\\' ∧ ∃ more, bytes = String.utf8EncodeChar c ++ more ∧ Spelling cs more) ∨
    (c = '\\' ∧ ∃ name ds byte more, cs = name ++ ds ∧ Escape name byte ∧ bytes = byte :: more ∧
      Spelling ds more) ∨
    (c = '\\' ∧ ∃ gap ds, cs = '\n' :: gap ++ ds ∧ (∀ g ∈ gap, isGap g = true) ∧
      (∀ d ∈ ds.head?, isGap d = false) ∧ Spelling ds bytes) := by
  generalize eq : c :: cs = text at h
  cases h with
  | nil => simp at eq
  | raw quote backslash rest =>
    obtain ⟨rfl, rfl⟩ := List.cons.inj eq
    exact .inl ⟨quote, backslash, _, rfl, rest⟩
  | escape names rest =>
    obtain ⟨rfl, rfl⟩ := List.cons.inj eq
    exact .inr (.inl ⟨rfl, _, _, _, _, rfl, names, rfl, rest⟩)
  | continuation gaps maximal rest =>
    obtain ⟨rfl, rfl⟩ := List.cons.inj eq
    exact .inr (.inr ⟨rfl, _, _, rfl, gaps, maximal, rest⟩)

def decimalByte (a b c : Char) : Nat :=
  100 * Digits.value a + 10 * Digits.value b + Digits.value c

theorem escape_cases {name : List Char} {byte : UInt8} (h : Escape name byte) :
    (∃ c, name = [c] ∧ simpleEscape? c = some byte) ∨
    (∃ a b c, name = [a, b, c] ∧ (∀ d ∈ [a, b, c], Digits.isDecimal d = true) ∧
      decimalByte a b c ≤ 255 ∧ byte = UInt8.ofNat (decimalByte a b c)) ∨
    (∃ a b, name = ['x', a, b] ∧ (∀ d ∈ [a, b], Digits.isHexadecimal d = true) ∧
      byte = UInt8.ofNat (16 * Digits.value a + Digits.value b)) := by
  cases h with
  | decimal digits number bound =>
    subst number
    exact .inr (.inl ⟨_, _, _, rfl, digits, bound, rfl⟩)
  | hexadecimal digits => exact .inr (.inr ⟨_, _, rfl, digits, rfl⟩)
  | _ => exact .inl ⟨_, rfl, rfl⟩

theorem simple_escape {c : Char} {byte : UInt8} (simple : simpleEscape? c = some byte) :
    Escape [c] byte := by
  unfold simpleEscape? at simple
  split at simple <;> first | contradiction | (obtain rfl := Option.some.inj simple; constructor)

theorem escape_single_iff {c : Char} {byte : UInt8} :
    Escape [c] byte ↔ simpleEscape? c = some byte := by
  refine ⟨fun names => ?_, simple_escape⟩
  rcases escape_cases names with ⟨d, same, named⟩ | ⟨_, _, _, same, _⟩ | ⟨_, _, same, _⟩
  · obtain rfl : c = d := by simpa using same
    exact named
  all_goals simp at same

theorem simple_escape_class {c : Char} {byte : UInt8} (simple : simpleEscape? c = some byte) :
    c ≠ '\n' ∧ c ≠ 'x' ∧ Digits.isDecimal c = false := by
  unfold simpleEscape? at simple
  split at simple <;> first | contradiction | decide

theorem spelling_raw_iff {c : Char} (quote : c ≠ '"') (backslash : c ≠ '\\') (cs : List Char)
    (bytes : List UInt8) :
    Spelling (c :: cs) bytes ↔
      ∃ more, bytes = String.utf8EncodeChar c ++ more ∧ Spelling cs more := by
  constructor
  · intro h
    rcases spelling_cases h with ⟨_, _, h⟩ | ⟨eq, _⟩ | ⟨eq, _⟩
    · exact h
    · exact absurd eq backslash
    · exact absurd eq backslash
  · rintro ⟨more, rfl, rest⟩
    exact .raw quote backslash rest

theorem spelling_no_quote (cs : List Char) (bytes : List UInt8) : ¬Spelling ('"' :: cs) bytes := by
  intro h
  rcases spelling_cases h with ⟨quote, _⟩ | ⟨eq, _⟩ | ⟨eq, _⟩
  · exact quote rfl
  · exact absurd eq (by decide)
  · exact absurd eq (by decide)

theorem spelling_backslash_cases {cs : List Char} {bytes : List UInt8}
    (h : Spelling ('\\' :: cs) bytes) :
    ∃ c ds, cs = c :: ds ∧
      ((∃ byte more, simpleEscape? c = some byte ∧ bytes = byte :: more ∧ Spelling ds more) ∨
       (c = '\n' ∧ ∃ gap rest, ds = gap ++ rest ∧ (∀ g ∈ gap, isGap g = true) ∧
         (∀ d ∈ rest.head?, isGap d = false) ∧ Spelling rest bytes) ∨
       (∃ a b rest more, ds = a :: b :: rest ∧ (∀ d ∈ [c, a, b], Digits.isDecimal d = true) ∧
         decimalByte c a b ≤ 255 ∧ bytes = UInt8.ofNat (decimalByte c a b) :: more ∧
         Spelling rest more) ∨
       (c = 'x' ∧ ∃ a b rest more, ds = a :: b :: rest ∧
         (∀ d ∈ [a, b], Digits.isHexadecimal d = true) ∧
         bytes = UInt8.ofNat (16 * Digits.value a + Digits.value b) :: more ∧
         Spelling rest more)) := by
  rcases spelling_cases h with ⟨_, other, _⟩ | ⟨_, name, ds, byte, more, rfl, names, rfl, rest⟩ |
    ⟨_, gap, ds, rfl, gaps, maximal, rest⟩
  · exact absurd rfl other
  · rcases escape_cases names with ⟨c, rfl, simple⟩ | ⟨a, b, c, rfl, digits, bound, rfl⟩ |
      ⟨a, b, rfl, digits, rfl⟩
    · exact ⟨c, ds, rfl, .inl ⟨byte, more, simple, rfl, rest⟩⟩
    · exact ⟨a, _, rfl, .inr (.inr (.inl ⟨b, c, ds, more, rfl, digits, bound, rfl, rest⟩))⟩
    · exact ⟨'x', _, rfl, .inr (.inr (.inr ⟨rfl, a, b, ds, more, rfl, digits, rfl, rest⟩))⟩
  · exact ⟨'\n', _, rfl, .inr (.inl ⟨rfl, gap, ds, rfl, gaps, maximal, rest⟩)⟩

theorem spelling_simple_iff {c : Char} {byte : UInt8} (simple : simpleEscape? c = some byte)
    (cs : List Char) (bytes : List UInt8) :
    Spelling ('\\' :: c :: cs) bytes ↔ ∃ more, bytes = byte :: more ∧ Spelling cs more := by
  obtain ⟨newline, hex, decimal⟩ := simple_escape_class simple
  constructor
  · intro h
    obtain ⟨d, ds, eq, h⟩ := spelling_backslash_cases h
    obtain ⟨rfl, rfl⟩ := List.cons.inj eq
    rcases h with ⟨other, more, named, rfl, rest⟩ | ⟨rfl, _⟩ | ⟨a, b, _, _, _, digits, _⟩ | ⟨rfl, _⟩
    · obtain rfl := Option.some.inj (simple.symm.trans named)
      exact ⟨more, rfl, rest⟩
    · exact absurd rfl newline
    · exact absurd (digits c (by simp)) (by simp [decimal])
    · exact absurd rfl hex
  · rintro ⟨more, rfl, rest⟩
    exact .escape (simple_escape simple) rest

theorem decimal_class {c : Char} (digit : Digits.isDecimal c = true) :
    c ≠ '\n' ∧ c ≠ 'x' ∧ simpleEscape? c = none := by
  have other : ∀ d, Digits.isDecimal d = false → c ≠ d := by
    intro d notDigit same
    rw [same, notDigit] at digit
    cases digit
  refine ⟨other _ (by decide), other _ (by decide), ?_⟩
  cases simple : simpleEscape? c with
  | none => rfl
  | some byte => exact absurd (simple_escape_class simple).2.2 (by simp [digit])

theorem spelling_decimal_cases {a : Char} {cs : List Char} {bytes : List UInt8}
    (digit : Digits.isDecimal a = true) (h : Spelling ('\\' :: a :: cs) bytes) :
    ∃ b c rest more, cs = b :: c :: rest ∧ Digits.isDecimal b = true ∧ Digits.isDecimal c = true ∧
      decimalByte a b c ≤ 255 ∧ bytes = UInt8.ofNat (decimalByte a b c) :: more ∧
      Spelling rest more := by
  obtain ⟨newline, hex, simple⟩ := decimal_class digit
  obtain ⟨d, ds, eq, h⟩ := spelling_backslash_cases h
  obtain ⟨rfl, rfl⟩ := List.cons.inj eq
  rcases h with ⟨byte, _, named, _⟩ | ⟨rfl, _⟩ | ⟨b, c, rest, more, rfl, digits, bound, rfl, tail⟩ |
    ⟨rfl, _⟩
  · simp [simple] at named
  · exact absurd rfl newline
  · exact ⟨b, c, rest, more, rfl, digits b (by simp), digits c (by simp), bound, rfl, tail⟩
  · exact absurd rfl hex

theorem spelling_hexadecimal_cases {cs : List Char} {bytes : List UInt8}
    (h : Spelling ('\\' :: 'x' :: cs) bytes) :
    ∃ a b rest more, cs = a :: b :: rest ∧ Digits.isHexadecimal a = true ∧
      Digits.isHexadecimal b = true ∧
      bytes = UInt8.ofNat (16 * Digits.value a + Digits.value b) :: more ∧ Spelling rest more := by
  obtain ⟨d, ds, eq, h⟩ := spelling_backslash_cases h
  obtain ⟨rfl, rfl⟩ := List.cons.inj eq
  rcases h with ⟨byte, _, named, _⟩ | ⟨newline, _⟩ | ⟨b, c, _, _, _, digits, _⟩ |
    ⟨_, a, b, rest, more, rfl, digits, rfl, tail⟩
  · exact absurd named (by simp [simpleEscape?])
  · exact absurd newline (by decide)
  · exact absurd (digits 'x' (by simp)) (by decide)
  · exact ⟨a, b, rest, more, rfl, digits a (by simp), digits b (by simp), rfl, tail⟩

theorem spelling_continuation_cases {cs : List Char} {bytes : List UInt8}
    (h : Spelling ('\\' :: '\n' :: cs) bytes) :
    ∃ gap rest, cs = gap ++ rest ∧ (∀ g ∈ gap, isGap g = true) ∧
      (∀ d ∈ rest.head?, isGap d = false) ∧ Spelling rest bytes := by
  obtain ⟨d, ds, eq, h⟩ := spelling_backslash_cases h
  obtain ⟨rfl, rfl⟩ := List.cons.inj eq
  rcases h with ⟨byte, _, named, _⟩ | ⟨_, h⟩ | ⟨b, c, _, _, _, digits, _⟩ | ⟨hex, _⟩
  · exact absurd named (by simp [simpleEscape?])
  · exact h
  · exact absurd (digits '\n' (by simp)) (by decide)
  · exact absurd hex (by decide)

theorem spelling_gap_iff {c : Char} (gap : isGap c = true) (cs : List Char) (bytes : List UInt8) :
    Spelling ('\\' :: '\n' :: c :: cs) bytes ↔ Spelling ('\\' :: '\n' :: cs) bytes := by
  constructor
  · intro h
    obtain ⟨blanks, rest, eq, gaps, maximal, tail⟩ := spelling_continuation_cases h
    cases blanks with
    | nil =>
      subst eq
      exact absurd (maximal c (by simp)) (by simp [gap])
    | cons d blanks =>
      obtain ⟨rfl, rfl⟩ := List.cons.inj eq
      exact .continuation (fun g member => gaps g (by simp [member])) maximal tail
  · intro h
    obtain ⟨blanks, rest, rfl, gaps, maximal, tail⟩ := spelling_continuation_cases h
    have all : ∀ g ∈ c :: blanks, isGap g = true := by
      intro g member
      rcases List.mem_cons.mp member with rfl | member
      · exact gap
      · exact gaps g member
    exact .continuation all maximal tail

theorem spelling_gap_over_iff {cs : List Char} (solid : ∀ d ∈ cs.head?, isGap d = false)
    (bytes : List UInt8) : Spelling ('\\' :: '\n' :: cs) bytes ↔ Spelling cs bytes := by
  constructor
  · intro h
    obtain ⟨blanks, rest, rfl, gaps, maximal, tail⟩ := spelling_continuation_cases h
    cases blanks with
    | nil => exact tail
    | cons d blanks =>
      have gap := gaps d List.mem_cons_self
      exact absurd (solid d rfl) (by simp [gap])
  · intro h
    exact @Spelling.continuation [] cs bytes (by simp) solid h

theorem spelling_no_lone_backslash (bytes : List UInt8) : ¬Spelling ['\\'] bytes := by
  intro h
  obtain ⟨_, _, eq, _⟩ := spelling_backslash_cases h
  simp at eq

theorem decimals_refused {digits : List Char} (present : 0 < digits.length)
    (few : digits.length < 3) (all : ∀ d ∈ digits, Digits.isDecimal d = true) (cs : List Char)
    (stop : ∀ c ∈ cs.head?, Digits.isDecimal c = false) (found : List UInt8) :
    ¬Spelling ('\\' :: digits ++ cs) found := by
  intro h
  match digits, present, few with
  | [a], _, _ =>
    obtain ⟨b, c, rest, _, eq, hb, _⟩ := spelling_decimal_cases (all a (by simp)) h
    obtain rfl : cs = b :: c :: rest := by simpa using eq
    exact absurd (stop b (by simp)) (by simp [hb])
  | [a, b], _, _ =>
    obtain ⟨d, c, rest, _, eq, _, hc, _⟩ := spelling_decimal_cases (all a (by simp)) h
    obtain ⟨rfl, rfl⟩ : b = d ∧ cs = c :: rest := by simpa using eq
    exact absurd (stop c (by simp)) (by simp [hc])

theorem spelling_decimal_iff {a b c : Char} (digits : ∀ d ∈ [a, b, c], Digits.isDecimal d = true)
    (cs : List Char) (found : List UInt8) :
    Spelling ('\\' :: a :: b :: c :: cs) found ↔ decimalByte a b c ≤ 255 ∧
      ∃ more, found = UInt8.ofNat (decimalByte a b c) :: more ∧ Spelling cs more := by
  constructor
  · intro h
    obtain ⟨d, e, rest, more, eq, _, _, bound, rfl, tail⟩ :=
      spelling_decimal_cases (digits a (by simp)) h
    obtain ⟨rfl, rfl, rfl⟩ : b = d ∧ c = e ∧ cs = rest := by simpa using eq
    exact ⟨bound, more, rfl, tail⟩
  · rintro ⟨bound, more, rfl, tail⟩
    exact .escape (.decimal digits rfl bound) tail

theorem hexadecimals_refused {digits : List Char} (few : digits.length < 2) (cs : List Char)
    (stop : ∀ c ∈ cs.head?, Digits.isHexadecimal c = false) (found : List UInt8) :
    ¬Spelling ('\\' :: 'x' :: digits ++ cs) found := by
  intro h
  obtain ⟨a, b, rest, _, eq, ha, hb, _⟩ := spelling_hexadecimal_cases h
  match digits, few with
  | [], _ =>
    obtain rfl : cs = a :: b :: rest := by simpa using eq
    exact absurd (stop a rfl) (by simp [ha])
  | [d], _ =>
    obtain ⟨rfl, rfl⟩ : d = a ∧ cs = b :: rest := by simpa using eq
    exact absurd (stop b rfl) (by simp [hb])

theorem spelling_hexadecimal_iff {a b : Char}
    (digits : ∀ d ∈ [a, b], Digits.isHexadecimal d = true) (cs : List Char)
    (found : List UInt8) :
    Spelling ('\\' :: 'x' :: a :: b :: cs) found ↔
      ∃ more, found = UInt8.ofNat (16 * Digits.value a + Digits.value b) :: more ∧
        Spelling cs more := by
  constructor
  · intro h
    obtain ⟨d, e, rest, more, eq, _, _, rfl, tail⟩ := spelling_hexadecimal_cases h
    obtain ⟨rfl, rfl, rfl⟩ : a = d ∧ b = e ∧ cs = rest := by simpa using eq
    exact ⟨more, rfl, tail⟩
  · rintro ⟨more, rfl, tail⟩
    exact .escape (.hexadecimal digits) tail

end TypedContracts.SExp
