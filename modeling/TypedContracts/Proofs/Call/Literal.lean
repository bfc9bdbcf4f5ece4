import TypedContracts.Proofs.Call.Encoding

/-!
An application as an array and as a literal. A literal has one item for each type; an array of just
as many is encoded alike, a shorter one fails alike, and of a longer one the items past the last
type are never looked at.
-/
namespace TypedContracts.Call
open Json

theorem encodeItems_enough (missing other : Nat → ArgumentFault) (i j : Nat) {types : List Field}
    {items : List Json} (enough : types.length ≤ items.length) :
    encodeItems missing i items types = encodeItems other j (items.take types.length) types := by
  induction types generalizing i j items with
  | nil => simp [encodeItems]
  | cons type types ih =>
    cases items with
    | nil => simp at enough
    | cons item items =>
      simp only [List.length_cons, List.take_succ_cons, encodeItems]
      rw [ih (i + 1) (j + 1) (Nat.le_of_succ_le_succ enough)]

theorem encodeItems_short {missing : Nat → ArgumentFault} {i : Nat} {types : List Field}
    {items : List Json} (short : items.length < types.length) :
    ∃ e, encodeItems missing i items types = .error e := by
  induction types generalizing i items with
  | nil => simp at short
  | cons type types ih =>
    cases items with
    | nil => exact ⟨_, by rw [encodeItems]⟩
    | cons item items =>
      obtain ⟨e, failed⟩ := ih (i := i + 1) (Nat.lt_of_succ_lt_succ short)
      rw [encodeItems, failed]
      cases encode item type with
      | error fault => exact ⟨fault, rfl⟩
      | ok value => exact ⟨e, rfl⟩

variable (name type c : String) (types : List Field) (items : List Json)

theorem encode_array_surplus (surplus : types.length ≤ items.length) :
    encode (.array items) ⟨name, type, .adt c types⟩ =
      encode (.array (items.take types.length)) ⟨name, type, .adt c types⟩ := by
  rw [encode_array items rfl, encode_array (items.take types.length) rfl,
    encodeItems_enough _ _ 0 0 surplus]

theorem encode_array_short (short : items.length < types.length) :
    ∃ e, encode (.array items) ⟨name, type, .adt c types⟩ = .error e := by
  rw [encode_array items rfl]
  obtain ⟨e, failed⟩ := encodeItems_short short
  exact ⟨e, by rw [failed]; rfl⟩

theorem encodeLiteral_miscounted (other : items.length ≠ types.length) :
    encodeLiteral ⟨c, types, .array items⟩ =
      .error (.callShape (literalTarget c) types.length items.length) := by
  simp [encodeLiteral, Literal.positional, literalArity, other, bind, Except.bind]

theorem encode_array_exact (exact : items.length = types.length) :
    encode (.array items) ⟨name, type, .adt c types⟩ = encodeLiteral ⟨c, types, .array items⟩ := by
  have enough : types.length ≤ items.length := Nat.le_of_eq exact.symm
  have whole : items.take types.length = items := List.take_of_length_le (Nat.le_of_eq exact)
  rw [encode_array items rfl,
    encodeItems_enough _ (fun i => .missing i types.length "") 0 0 enough, whole]
  simp only [encodeLiteral, Literal.positional, literalArity, exact, if_true, Field.types]
  rfl

/-- The two forms agree unless the array has more items than the type, and those that the type asks
for can be encoded: then it is encoded as if it ended with these, where the literal is refused. -/
theorem array_and_literal_agree :
    let slot : Field := ⟨name, type, .adt c types⟩
    let literal : Literal := ⟨c, types, .array items⟩
    let due : Json := .array (items.take types.length)
    ((∀ value, encode (.array items) slot = .ok value ↔ encodeLiteral literal = .ok value) ↔
      ¬(types.length < items.length ∧ ∃ value, encode due slot = .ok value)) ∧
    (items.length = types.length → encode (.array items) slot = encodeLiteral literal) ∧
    (types.length < items.length → encode (.array items) slot = encode due slot) ∧
    (items.length ≠ types.length → encodeLiteral literal =
      .error (.callShape (literalTarget c) types.length items.length)) := by
  intro slot literal due
  have miscounted := encodeLiteral_miscounted c types items
  have surplus (more : types.length < items.length) :
      encode (.array items) slot = encode due slot :=
    encode_array_surplus name type c types items (Nat.le_of_lt more)
  refine ⟨⟨?_, ?_⟩, encode_array_exact name type c types items, surplus, miscounted⟩
  · rintro agree ⟨more, value, encoded⟩
    have literalToo := (agree value).mp ((surplus more).trans encoded)
    rw [miscounted (Nat.ne_of_gt more)] at literalToo
    cases literalToo
  · intro noSurplus value
    rcases Nat.lt_trichotomy items.length types.length with short | exact | more
    · obtain ⟨e, failed⟩ := encode_array_short name type c types items short
      rw [failed, miscounted (Nat.ne_of_lt short)]
      constructor <;> rintro ⟨⟩
    · rw [encode_array_exact name type c types items exact]
    · rw [miscounted (Nat.ne_of_gt more)]
      constructor
      · intro encoded
        exact absurd ⟨more, value, (surplus more).symm.trans encoded⟩ noSurplus
      · rintro ⟨⟩

/-- A second item for a type of one argument: the array loses it, the literal is refused. -/
theorem surplus_item_lost :
    let slot : Field := ⟨"to", "Option Uint32", .adt "Some" [.ofPrimitive "Uint32"]⟩
    let items : List Json := [.integer 1, .integer 2]
    encode (.array items) slot = .ok (.application "Some" ["Uint32"] [.scalar "1"]) ∧
      encodeLiteral ⟨"Some", [.ofPrimitive "Uint32"], .array items⟩ =
        .error (.callShape "constructor Some" 1 2) ∧
      ¬∀ value, encode (.array items) slot = .ok value ↔
        encodeLiteral ⟨"Some", [.ofPrimitive "Uint32"], .array items⟩ = .ok value := by
  intro slot items
  have encoded : encode (.array items) slot =
      .ok (.application "Some" ["Uint32"] [.scalar "1"]) := by decide
  have refused : encodeLiteral ⟨"Some", [.ofPrimitive "Uint32"], .array items⟩ =
      .error (.callShape "constructor Some" 1 2) := by decide
  refine ⟨encoded, refused, fun agree => ?_⟩
  have literalToo := (agree _).mp encoded
  rw [refused] at literalToo
  cases literalToo

end TypedContracts.Call
