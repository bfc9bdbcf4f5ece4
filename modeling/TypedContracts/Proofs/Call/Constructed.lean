import TypedContracts.Proofs.Call.Written
import TypedContracts.Proofs.Result

/-!
A literal in its two forms. The constructor of a name is the last one that has it; the literal it
makes of an argument is encoded alike as it is and in its written form, with a value for each of the
types of the constructor or not at all.
-/
namespace TypedContracts.Call
open Json

/-- Among constructors, the one of a name that no later one has. -/
def LastNamed (name : String) (ks : List Constructor) (k : Constructor) : Prop :=
  ∃ before after, ks = before ++ k :: after ∧ k.name = name ∧ ∀ later ∈ after, later.name ≠ name

theorem buildLiteral_ok_iff {ks : List Constructor} {name : String} {argument : Json} {l : Literal} :
    buildLiteral ks name argument = .ok l ↔ ∃ k, LastNamed name ks k ∧ l = k.apply argument := by
  have last : ∀ k, ks.reverse.find? (·.name == name) = some k ↔ LastNamed name ks k := by
    intro k
    rw [List.find?_eq_some_iff_append]
    constructor
    · rintro ⟨named, after, before, split, none⟩
      refine ⟨before.reverse, after.reverse, ?_, by simpa using named, by simpa using none⟩
      simpa using congrArg List.reverse split
    · rintro ⟨before, after, rfl, named, none⟩
      exact ⟨by simpa using named, after.reverse, before.reverse, by simp, by simpa using none⟩
  unfold buildLiteral
  rw [constructorTable_last]
  cases found : ks.reverse.find? (·.name == name) with
  | none =>
    constructor
    · rintro ⟨⟩
    · rintro ⟨k, named, -⟩
      exact nomatch found.symm.trans ((last k).mpr named)
  | some k =>
    constructor
    · rintro ⟨⟩
      exact ⟨k, (last k).mp found, rfl⟩
    · rintro ⟨other, named, rfl⟩
      cases found.symm.trans ((last other).mpr named)
      rfl

theorem encode_written (l : Literal) {slot : Field} {c : String} {types : List Field}
    (shape : slot.shape = .adt c types) : encode l.toJson slot = encodeLiteral l := by
  obtain ⟨name, type, shape'⟩ := slot
  cases shape
  have stored := literal_stored l
  have member := encodeMember_eq (literal_argument stored)
  unfold Literal.toJson at stored member ⊢
  simp [encode, stored, member]

theorem encodeItems_ok_iff {missing : Nat → ArgumentFault} {i : Nat} {types : List Field}
    {items : List Json} (exact : items.length = types.length) {values : List Encoded} :
    encodeItems missing i items types = .ok values ↔
      List.Forall₂ (fun (pair : Field × Json) value => encode pair.2 pair.1 = .ok value)
        (types.zip items) values := by
  induction types generalizing i items values with
  | nil => simp [encodeItems, eq_comm]
  | cons type types ih =>
    obtain ⟨item, items, rfl⟩ := List.exists_cons_of_length_eq_add_one exact
    simp only [encodeItems, Result.bind_ok_iff, Result.pure_ok_iff, ih (Nat.succ.inj exact),
      List.zip_cons_cons, List.forall₂_cons_left_iff]
    constructor
    · rintro ⟨value, first, rest, later, rfl⟩
      exact ⟨value, rest, first, later, rfl⟩
    · rintro ⟨value, rest, first, later, rfl⟩
      exact ⟨value, first, rest, later, rfl⟩

theorem encodeLiteral_ok_iff {l : Literal} {value : Encoded} :
    encodeLiteral l = .ok value ↔ l.positional.length = l.types.length ∧
      ∃ arguments, List.Forall₂ (fun (pair : Field × Json) v => encode pair.2 pair.1 = .ok v)
          (l.types.zip l.positional) arguments ∧
        value = .application l.constructor (l.types.map (·.type)) arguments := by
  unfold encodeLiteral literalArity
  dsimp only
  by_cases exact : l.positional.length = l.types.length
  · rw [if_pos exact]
    simp only [Result.bind_ok_iff, Result.pure_ok_iff, encodeItems_ok_iff exact, exact, true_and,
      exists_const, Field.types]
  · rw [if_neg exact]
    simp [exact, bind, Except.bind]

theorem forall₂_exists_iff {α β : Type} {R : α → β → Prop} {xs : List α} :
    (∃ ys, List.Forall₂ R xs ys) ↔ ∀ x ∈ xs, ∃ y, R x y := by
  induction xs with
  | nil => simp
  | cons x xs ih =>
    rw [List.forall_mem_cons, ← ih]
    constructor
    · rintro ⟨_, _ | ⟨first, rest⟩⟩
      exact ⟨⟨_, first⟩, _, rest⟩
    · rintro ⟨⟨y, first⟩, ys, rest⟩
      exact ⟨y :: ys, .cons first rest⟩

theorem encodeLiteral_succeeds_iff {l : Literal} :
    (∃ value, encodeLiteral l = .ok value) ↔ l.positional.length = l.types.length ∧
      ∀ pair ∈ l.types.zip l.positional, ∃ value, encode pair.2 pair.1 = .ok value := by
  simp only [encodeLiteral_ok_iff, exists_and_left, ← forall₂_exists_iff]
  refine and_congr_right fun _ => ⟨?_, ?_⟩
  · rintro ⟨_, arguments, each, -⟩
    exact ⟨arguments, each⟩
  · rintro ⟨arguments, each⟩
    exact ⟨_, arguments, each, rfl⟩

theorem encodeLiteral_bare (c : String) (type : Field) {argument : Json}
    (bare : ∀ items, argument ≠ .array items) :
    encodeLiteral ⟨c, [type], argument⟩ = encodeLiteral ⟨c, [type], .array [argument]⟩ := by
  have alone : (Literal.mk c [type] argument).positional = [argument] := by
    cases argument with
    | array items => exact absurd rfl (bare items)
    | _ => rfl
  rw [encodeLiteral, encodeLiteral, alone]
  rfl

/-- The literal of a name is made by the last constructor that has it. However it is passed it is
encoded alike: as that constructor with its types and the values of its arguments, if there is an
argument for each type and each is encoded under its type. A bare value stands for an array of it,
and a null for the empty array where no type is. -/
theorem literal_passed_alike (ks : List Constructor) (name : String) (argument : Json) :
    (∀ l, buildLiteral ks name argument = .ok l ↔
      ∃ k, LastNamed name ks k ∧ l = k.apply argument) ∧
    ∀ k : Constructor,
      let l := k.apply argument
      (∀ slot c types, slot.shape = .adt c types → encode l.toJson slot = encodeLiteral l) ∧
      (∀ items, argument = .array items → l.positional = items) ∧
      ((∃ value, encodeLiteral l = .ok value) ↔ l.positional.length = k.arguments.length ∧
        ∀ pair ∈ k.arguments.zip l.positional, ∃ value, encode pair.2 pair.1 = .ok value) ∧
      (∀ value, encodeLiteral l = .ok value → ∃ arguments,
        List.Forall₂ (fun (pair : Field × Json) v => encode pair.2 pair.1 = .ok v)
          (k.arguments.zip l.positional) arguments ∧
        value = .application k.name (k.arguments.map (·.type)) arguments) ∧
      (∀ type, k.arguments = [type] → (∀ items, argument ≠ .array items) →
        encodeLiteral l = encodeLiteral (k.apply (.array [argument]))) ∧
      (k.arguments = [] → encodeLiteral (k.apply .null) = encodeLiteral (k.apply (.array []))) := by
  refine ⟨fun l => buildLiteral_ok_iff, fun k => ?_⟩
  intro l
  refine ⟨fun slot c types => encode_written l, ?_, encodeLiteral_succeeds_iff, ?_, ?_, ?_⟩
  · rintro items rfl
    rfl
  · intro value encoded
    exact (encodeLiteral_ok_iff.mp encoded).2
  · obtain ⟨typeName, c, types⟩ := k
    rintro type rfl bare
    exact encodeLiteral_bare c type bare
  · obtain ⟨typeName, c, types⟩ := k
    rintro rfl
    rfl

theorem raised_level_passed :
    let level : Field := ⟨"", "Level", .adt "Level" []⟩
    let low : Constructor := ⟨"Level", "Low", []⟩
    let high : Constructor := ⟨"Level", "High", [level]⟩
    let ks : List Constructor := [⟨"Height", "High", [.ofPrimitive "Uint32"]⟩, low, high]
    let inner : Json := (low.apply .null).toJson
    let value : Encoded := .application "High" ["Level"] [.application "Low" [] []]
    LastNamed "High" ks high ∧ level.shape = .adt "Level" [] ∧
      buildLiteral ks "High" inner = .ok (high.apply inner) ∧
      encode (high.apply inner).toJson level = .ok value ∧
      encodeLiteral (high.apply (.array [inner])) = .ok value ∧
      encodeLiteral (low.apply (.array [])) = .ok (.application "Low" [] []) := by
  intro level low high ks inner value
  have last : LastNamed "High" ks high := ⟨[_, low], [], rfl, rfl, List.forall_mem_nil _⟩
  have bare : ∀ items, inner ≠ .array items := by
    intro items
    simp [inner, Literal.toJson]
  obtain ⟨made, whole⟩ := literal_passed_alike ks "High" inner
  obtain ⟨written, -, -, -, single, -⟩ := whole high
  obtain ⟨-, -, -, -, -, nullary⟩ := (literal_passed_alike ks "Low" .null).2 low
  have encoded : encodeLiteral (high.apply inner) = .ok value := by decide
  have none : encodeLiteral (low.apply .null) = .ok (.application "Low" [] []) := by decide
  exact ⟨last, rfl, (made _).mpr ⟨high, last, rfl⟩, (written level "Level" [] rfl).trans encoded,
    (single level rfl bare).symm.trans encoded, (nullary rfl).symm.trans none⟩

end TypedContracts.Call
