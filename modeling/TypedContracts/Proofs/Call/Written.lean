import TypedContracts.Call.Encode
import TypedContracts.Proofs.Json.Members
import TypedContracts.Proofs.Model.Stored

/-!
Literals as the constructors of a contract make them. A literal is a constructor applied, it reads
back from its written form, and the encoder takes its argument from there.
-/
namespace TypedContracts.Call
open Json

theorem constructorTable_last (ks : List Constructor) (name : String) :
    (constructorTable ks).lookup name = ks.reverse.find? (·.name == name) := by
  have from_table : ∀ (rest : List Constructor) (table : List (String × Constructor)),
      (rest.foldl (fun table c => insertMember c.name c table) table).lookup name =
        (rest.reverse.find? (·.name == name)).or (table.lookup name) := by
    intro rest
    induction rest with
    | nil => exact fun table => rfl
    | cons next rest ih =>
      intro table
      rw [List.foldl_cons, ih, lookup_insertMember, List.reverse_cons, List.find?_append,
        Option.or_assoc]
      by_cases here : name = next.name
      · simp [here]
      · simp [here, Ne.symm here]
  exact (from_table ks []).trans (Option.or_none ..)

theorem constructorTable_lookup {ks : List Constructor} {name : String} {k : Constructor}
    (found : (constructorTable ks).lookup name = some k) : k ∈ ks := by
  rw [constructorTable_last] at found
  exact List.mem_reverse.mp (List.mem_of_find?_eq_some found)

theorem buildLiteral_made {ks : List Constructor} {name : String} {argument : Json} {l : Literal}
    (built : buildLiteral ks name argument = .ok l) : ∃ k ∈ ks, l = k.apply argument := by
  unfold buildLiteral at built
  split at built
  · rename_i k found
    cases built
    exact ⟨k, constructorTable_lookup found, rfl⟩
  · cases built

theorem literal_stored (l : Literal) : Literal.ofJson? l.toJson = some l := by
  have types : Field.listOfJson? (.array (Field.listToJson l.types)) = some l.types :=
    fields_reading l.types
  simp [Literal.ofJson?, Literal.toJson, slots?, memberSlots?, memberSlot?, valuesOf, Slot.required,
    asText?, types]

theorem memberSlot_given {members : List (String × Json)} {key : String} {value : Json}
    (here : memberSlot? members key = some (.given value)) : valuesOf key members = [value] := by
  unfold memberSlot? at here
  split at here
  · cases here
  · rename_i only
    cases here
    exact only
  · cases here

theorem literal_argument {members : List (String × Json)} {l : Literal}
    (read : Literal.ofJson? (.object members) = some l) :
    valuesOf "args" members = [l.argument] := by
  unfold Literal.ofJson? at read
  obtain ⟨slots, here, read⟩ := Option.bind_eq_some_iff.mp read
  simp only [slots?, memberSlots?, List.mapM_cons, List.mapM_nil, Option.bind_eq_bind,
    Option.bind_eq_some_iff, Option.pure_def, Option.some.injEq] at here
  obtain ⟨constructor, -, _, ⟨types, -, _, ⟨argument, last, _, rfl, rfl⟩, rfl⟩, rfl⟩ := here
  simp only [Option.bind_eq_bind, Option.bind_eq_some_iff, Option.some.injEq] at read
  obtain ⟨c, -, fields, -, value, given, rfl⟩ := read
  cases argument with
  | given v =>
    cases given
    exact memberSlot_given last
  | absent => cases given
  | cut => cases given

theorem encodeMember_bare (c : String) (types : List Field) {value : Json}
    (rest : List (String × Json)) (bare : ∀ items, value ≠ .array items) :
    encodeMember (("args", value) :: rest) ⟨c, types, value⟩ = encodeLiteral ⟨c, types, value⟩ := by
  cases value with
  | array items => exact absurd rfl (bare items)
  | _ =>
    rcases types with _ | ⟨type, _ | ⟨second, types⟩⟩
    · simp [encodeMember, encodeLiteral, Literal.positional, literalArity, encodeItems, isNull,
        Field.types, bind, Except.bind, pure, Except.pure]
    · simp [encodeMember, encodeLiteral, Literal.positional, literalArity, encodeItems, Field.types]
      cases encode _ type <;> rfl
    · simp [encodeMember, encodeLiteral, Literal.positional, literalArity, isNull, bind,
        Except.bind]

theorem encodeMember_eq {members : List (String × Json)} {l : Literal}
    (given : valuesOf "args" members = [l.argument]) :
    encodeMember members l = encodeLiteral l := by
  induction members with
  | nil => cases given
  | cons m members ih =>
    obtain ⟨key, value⟩ := m
    by_cases here : key = "args"
    · subst here
      obtain ⟨c, types, argument⟩ := l
      obtain rfl : value = argument := by
        simp only [valuesOf, beq_self_eq_true, List.filter_cons_of_pos, List.map_cons] at given
        exact (List.cons.inj given).1
      by_cases row : ∃ items, value = .array items
      · obtain ⟨items, rfl⟩ := row
        simp [encodeMember, encodeLiteral, Literal.positional]
      · exact encodeMember_bare c types members (not_exists.mp row)
    · have later : valuesOf "args" members = [l.argument] := by
        simpa [valuesOf, here] using given
      rw [← ih later]
      cases value <;> simp [encodeMember, here]

end TypedContracts.Call
