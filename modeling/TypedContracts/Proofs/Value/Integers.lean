import TypedContracts.Proofs.Call.Encoding
import TypedContracts.Proofs.Call.OverridesStored

/-!
Integers on their way out and back. An integer goes out as its decimal text, whether it was given as
text or as a JSON number, and that text decodes to the same integer again. A binary number is never
taken for an integer: its text has a point or an exponent, which no integer type reads.
-/
namespace TypedContracts
open Json

theorem toString_chars (n : Int) : (toString n).toList = Digits.decimalInteger n := by
  rw [Int.toString_eq_repr, Int.repr_eq_if, Digits.decimalInteger]
  by_cases negative : n < 0
  · rw [if_neg (by omega), if_pos negative, String.toList_append, Nat.toList_repr, Digits.decimal]
    have same : (-n).toNat = n.natAbs := by omega
    rw [same]
    rfl
  · rw [if_pos (by omega), if_neg negative, Nat.toList_repr, Digits.decimal]
    have same : n.toNat = n.natAbs := by omega
    rw [same]

theorem decimalInteger_text (n : Int) : String.ofList (Digits.decimalInteger n) = toString n := by
  rw [← toString_chars, String.ofList_toList]

def Narrow (n : Int) : Prop := -2 ^ 63 ≤ n ∧ n < 2 ^ 64

namespace IntegerKind

def types : List (String × IntegerKind) :=
  [("Int32", .machine), ("Uint32", .machine), ("Int64", .machine), ("Uint64", .machine),
    ("Int128", .unbounded), ("Uint128", .unbounded), ("Int256", .unbounded),
    ("Uint256", .unbounded)]

theorem ofType_iff (type : String) (kind : IntegerKind) :
    ofType? type = some kind ↔ (type, kind) ∈ types := by
  have known : ∀ t ∈ types, ofType? t.1 = some t.2 := by decide
  have small : ∀ t ∈ ["Int32", "Uint32", "Int64", "Uint64"], (t, .machine) ∈ types := by decide
  have large : ∀ t ∈ ["Int128", "Uint128", "Int256", "Uint256"], (t, .unbounded) ∈ types := by
    decide
  constructor
  · intro found
    unfold ofType? at found
    split at found
    · cases found
      exact small type (by assumption)
    · split at found
      · cases found
        exact large type (by assumption)
      · cases found
  · exact known (type, kind)

/-- The integers that a decoded value of the kind can be. -/
def Holds : IntegerKind → Int → Prop
  | .machine, n => -2 ^ 127 ≤ n ∧ n < 2 ^ 127
  | .unbounded, _ => True

def decoded : IntegerKind → Int → Decoded
  | .machine, n => .machine n
  | .unbounded, n => .unbounded n

end IntegerKind

namespace Decoded

theorem decoded_integer (kind : IntegerKind) (n : Int) : (kind.decoded n).integer? = some n := by
  cases kind <;> rfl

theorem machine_read {n : Int} (fits : IntegerKind.machine.Holds n) :
    readMachine? (Digits.decimalInteger n) = some n := by
  have held : Word.holdsSigned Word.count128 n = true := by
    obtain ⟨lower, upper⟩ := fits
    have half : ((Word.count128 / 2 : Nat) : Int) = 2 ^ 127 := by decide
    simp only [Word.holdsSigned, half, Bool.and_eq_true, decide_eq_true_eq]
    omega
  simp only [readMachine?, signed_decimal, decimal_read, negated_magnitude, Word.signed?, held,
    if_true]

theorem natural_read (n : Nat) : readNatural? (Digits.decimal n) = some n := by
  have digits := decimal_digits n
  have passes : (Digits.decimal n).all (fun c => Digits.isDecimal c || c == '_') = true :=
    List.all_eq_true.mpr fun c member => by simp [digits c member]
  have kept : (Digits.decimal n).filter (· != '_') = Digits.decimal n := by
    refine List.filter_eq_self.mpr fun c member => ?_
    have digit := digits c member
    by_contra other
    obtain rfl : c = '_' := by simpa using other
    exact absurd digit (by decide)
  unfold readNatural?
  split
  · rename_i empty
    exact absurd empty Nat.toDigits_ne_nil
  · rename_i whole
    exact absurd (decimal_first whole) (by decide)
  · rw [if_pos passes, kept, numeral_decimal]

theorem unbounded_read (n : Int) : readUnbounded? (Digits.decimalInteger n) = some n := by
  rw [Digits.decimalInteger]
  by_cases negative : n < 0
  · rw [if_pos negative, readUnbounded?, natural_read]
    simp [abs_of_neg negative]
  · rw [if_neg negative]
    unfold readUnbounded?
    split
    · rename_i whole
      exact absurd (decimal_first whole) (by decide)
    · rename_i whole
      exact absurd (decimal_first whole) (by decide)
    · simp [natural_read, abs_of_nonneg (Int.not_lt.mp negative)]

theorem text_decoded {type : String} {kind : IntegerKind} (known : (type, kind) ∈ IntegerKind.types)
    {n : Int} (fits : kind.Holds n) :
    ofScalar type (.text (toString n)) = .ok (kind.decoded n) := by
  rw [ofScalar, (IntegerKind.ofType_iff type kind).mpr known]
  simp only [readAs, integerText?, toString_chars]
  cases kind with
  | machine => rw [machine_read fits]; rfl
  | unbounded => rw [unbounded_read]; rfl

theorem number_decoded {type : String} {kind : IntegerKind}
    (known : (type, kind) ∈ IntegerKind.types) {n : Int} (narrow : Narrow n) :
    ofScalar type (.integer n) = .ok (kind.decoded n) := by
  have fits : kind.Holds n := by
    obtain ⟨lower, upper⟩ := narrow
    cases kind with
    | machine => exact ⟨by omega, by omega⟩
    | unbounded => trivial
  have text : integerText? (.integer n) = some (toString n) :=
    congrArg some (decimalInteger_text n)
  rw [← text_decoded known fits, ofScalar, ofScalar, (IntegerKind.ofType_iff type kind).mpr known]
  simp only [readAs, text]
  rfl

def Foreign (c : Char) : Prop :=
  Digits.isDecimal c = false ∧ c ≠ '+' ∧ c ≠ '-' ∧ c ≠ '_'

theorem decimal_refused {c : Char} (foreign : Foreign c) {cs : List Char} (member : c ∈ cs) :
    Digits.decimal? cs = none := by
  have fails : cs.all Digits.isDecimal = false :=
    List.all_eq_false.mpr ⟨c, member, by simp [foreign.1]⟩
  simp [Digits.decimal?, Digits.numeral?, fails]

theorem natural_refused {c : Char} (foreign : Foreign c) {cs : List Char} (member : c ∈ cs) :
    readNatural? cs = none := by
  obtain ⟨noDigit, -, -, noGap⟩ := foreign
  have fails : cs.all (fun c => Digits.isDecimal c || c == '_') = false :=
    List.all_eq_false.mpr ⟨c, member, by simp [noDigit, noGap]⟩
  unfold readNatural?
  split
  · rfl
  · rfl
  · simp [fails]

theorem signed_foreign {c : Char} (foreign : Foreign c) {cs : List Char} (member : c ∈ cs) :
    c ∈ (Digits.signed cs).2 := by
  obtain ⟨-, noPlus, noMinus, -⟩ := foreign
  unfold Digits.signed
  split
  · exact (List.mem_cons.mp member).resolve_left noPlus
  · exact (List.mem_cons.mp member).resolve_left noMinus
  · exact member

theorem machine_refused {c : Char} (foreign : Foreign c) {cs : List Char} (member : c ∈ cs) :
    readMachine? cs = none := by
  simp only [readMachine?, decimal_refused foreign (signed_foreign foreign member)]

theorem unbounded_refused {c : Char} (foreign : Foreign c) {cs : List Char} (member : c ∈ cs) :
    readUnbounded? cs = none := by
  obtain ⟨-, noPlus, noMinus, -⟩ := id foreign
  unfold readUnbounded?
  split
  · simp [natural_refused foreign ((List.mem_cons.mp member).resolve_left noMinus)]
  · simp [natural_refused foreign ((List.mem_cons.mp member).resolve_left noPlus)]
  · simp [natural_refused foreign member]

theorem positional_point (digits : List Char) (places : Int) : '.' ∈ positional digits places := by
  unfold positional
  split
  · simp
  · split <;> simp

theorem scientific_mark (digits : List Char) (exponent : Int) :
    'e' ∈ scientific digits exponent := by
  simp [scientific]

theorem binary_foreign (x : Binary64) : ∃ c ∈ binaryChars x, Foreign c := by
  have point : Foreign '.' := by unfold Foreign; decide
  have mark : Foreign 'e' := by unfold Foreign; decide
  unfold binaryChars
  dsimp only
  split
  · exact ⟨'.', by simp, point⟩
  · split
    · exact ⟨'.', List.mem_append_right _ (positional_point _ _), point⟩
    · exact ⟨'e', List.mem_append_right _ (scientific_mark _ _), mark⟩

theorem binary_refused {type : String} {kind : IntegerKind}
    (known : (type, kind) ∈ IntegerKind.types) (x : Binary64) :
    ofScalar type (.binary x) = .error (.decode (.invalid type (compact (.binary x)))) := by
  obtain ⟨c, member, foreign⟩ := binary_foreign x
  rw [ofScalar, (IntegerKind.ofType_iff type kind).mpr known]
  simp only [readAs, integerText?, String.toList_ofList]
  cases kind with
  | machine => rw [machine_refused foreign member]; rfl
  | unbounded => rw [unbounded_refused foreign member]; rfl

end Decoded

namespace Json

def Numeral.integer (m : Numeral) : Int := Digits.negated m.negative (Digits.numeral 10 m.whole)

theorem numeral_value {m : Numeral} {j : Json} (read : m.value? = some j) :
    (m.tail = none ∧ Narrow m.integer ∧ j = .integer m.integer) ∨ ∃ x, j = .binary x := by
  have half : Word.count64 / 2 = 2 ^ 63 := by decide
  have count : Word.count64 = 2 ^ 64 := by decide
  unfold Numeral.value? at read
  split at read
  · obtain ⟨x, _, made⟩ := Option.bind_eq_some_iff.mp read
    exact .inr ⟨_, (Option.some.inj made).symm⟩
  · rename_i plain
    dsimp only at read
    unfold Narrow Numeral.integer Digits.negated
    split at read
    · rename_i negative
      rw [if_pos negative]
      split at read
      · exact .inl ⟨plain, by omega, (Option.some.inj read).symm⟩
      · obtain ⟨x, _, made⟩ := Option.bind_eq_some_iff.mp read
        exact .inr ⟨_, (Option.some.inj made).symm⟩
    · rename_i positive
      rw [if_neg positive]
      split at read
      · exact .inl ⟨plain, by omega, (Option.some.inj read).symm⟩
      · obtain ⟨x, _, made⟩ := Option.bind_eq_some_iff.mp read
        exact .inr ⟨_, (Option.some.inj made).symm⟩

end Json

/-- The ways to give an integer as an argument: its decimal text or, within 64 bits, a JSON
integer. -/
inductive Gives (n : Int) : Json → Prop where
  | text : Gives n (.text (toString n))
  | number (narrow : Narrow n) : Gives n (.integer n)

theorem gives_encoded {n : Int} {arg : Json} (gives : Gives n arg) {slot : Field} {p : String}
    (shape : slot.shape = .primitive p) : Call.encode arg slot = .ok (.scalar (toString n)) := by
  have plain : Call.Plain arg := by cases gives <;> trivial
  have text : Call.ScalarText arg (toString n) := by
    cases gives with
    | text => exact .text _
    | number narrow =>
      rw [← decimalInteger_text]
      exact .integer n
  have apart : ∀ items c types, arg = .array items → slot.shape ≠ .adt c types := by
    intro items c types _ other
    cases shape.symm.trans other
  rw [Call.encode_eq_flat plain apart]
  exact Call.encodeFlat_ok_iff.mpr ⟨p, _, shape, text, rfl⟩

/-- For every integer type: an integer that the type's decoded form can hold is sent as its decimal
text, however it was given, and that text decodes to it and nothing else. No binary number decodes,
so what a JSON number decodes to is the integer that is written there, digit for digit, and a
number with a fraction or an exponent or beyond 64 bits is refused. -/
theorem integers_read_back {type : String} {kind : IntegerKind}
    (known : (type, kind) ∈ IntegerKind.types) :
    (∀ n, kind.Holds n → ∀ arg, Gives n arg → ∀ slot : Field, slot.shape = .primitive type →
      Call.encode arg slot = .ok (.scalar (toString n)) ∧
      Decoded.ofScalar type (.text (toString n)) = .ok (kind.decoded n) ∧
      (kind.decoded n).integer? = some n) ∧
    (∀ x, Decoded.ofScalar type (.binary x) =
      .error (.decode (.invalid type (compact (.binary x))))) ∧
    ∀ (m : Numeral) (j : Json), m.value? = some j →
      (m.tail = none ∧ Narrow m.integer ∧
        Decoded.ofScalar type j = .ok (kind.decoded m.integer)) ∨
      ∃ fault, Decoded.ofScalar type j = .error (.decode fault) := by
  refine ⟨?_, Decoded.binary_refused known, ?_⟩
  · intro n fits arg gives slot shape
    exact ⟨gives_encoded gives shape, Decoded.text_decoded known fits,
      Decoded.decoded_integer kind n⟩
  · intro m j read
    rcases numeral_value read with ⟨plain, narrow, rfl⟩ | ⟨x, rfl⟩
    · exact .inl ⟨plain, narrow, Decoded.number_decoded known narrow⟩
    · exact .inr ⟨_, Decoded.binary_refused known x⟩

theorem greatest_word_read_back :
    let slot := Field.ofPrimitive "Uint64"
    let beyond : Numeral := ⟨false, "18446744073709551616".toList, none⟩
    Call.encode (.integer (2 ^ 64 - 1)) slot = .ok (.scalar "18446744073709551615") ∧
      Decoded.ofScalar "Uint64" (.text "18446744073709551615") = .ok (.machine (2 ^ 64 - 1)) ∧
      ∃ x, beyond.value? = some (.binary x) ∧
        Decoded.ofScalar "Uint64" (.binary x) =
          .error (.decode (.invalid "Uint64" (compact (.binary x)))) := by
  intro slot beyond
  have known : ("Uint64", .machine) ∈ IntegerKind.types := by decide
  have narrow : Narrow (2 ^ 64 - 1) := ⟨by decide, by decide⟩
  have fits : IntegerKind.machine.Holds (2 ^ 64 - 1) := ⟨by decide, by decide⟩
  have back := integers_read_back known
  obtain ⟨sent, decoded, _⟩ := back.1 _ fits _ (.number narrow) slot rfl
  exact ⟨sent, decoded, ⟨false, 2 ^ 52, 12⟩, by decide +kernel, back.2.1 _⟩

end TypedContracts
