import TypedContracts.Model.Stored
import TypedContracts.Proofs.Json.Nesting

/-!
The stored form of a model. What is read from a clipped value is read from the whole value, and the
whole value reads back as the model it was written from. So does its text, unless a type is nested
too deep for the reader.
-/
namespace TypedContracts
open Json

section Below
variable {α β : Type} {form : Form α} {other : Form β} {R : α → β → Prop} {a : α} {b : β}

theorem field_below (refines : form.Refines other R) (related : R a b) :
    Below (Field.read? form a) (Field.read? other b) := by
  unfold Field.read?
  apply refines.record related
  intro slots others all
  rcases all with _ | ⟨name, _ | ⟨type, _ | ⟨shape, _ | _⟩⟩⟩
  · exact .none _
  · exact .none _
  · exact .none _
  · apply (Slot.orDefault_below name "" fun _ _ => refines.text).bind
    intro name
    apply (Slot.required_below type fun _ _ => refines.text).bind
    intro type
    have shapes := fun a b related => (refines.value (a := a) (b := b) related).bind fun value =>
      Below.refl (Shape.ofJson? value)
    exact (Slot.omissible_below shape (fun _ _ => refines.isNull) shapes).bind fun _ => .refl _
  · exact .none _

theorem fieldList_below (refines : form.Refines other R) (related : R a b) :
    Below (Field.listRead? form a) (Field.listRead? other b) :=
  refines.list related fun _ _ => field_below refines

theorem component_below (refines : form.Refines other R) (related : R a b) :
    Below (Component.read? form a) (Component.read? other b) := by
  unfold Component.read?
  apply refines.record related
  intro slots others all
  rcases all with _ | ⟨kind, _ | ⟨name, _ | ⟨params, _ | _⟩⟩⟩
  · exact .none _
  · exact .none _
  · exact .none _
  · apply (Slot.required_below kind fun _ _ => refines.text).bind
    intro kind
    apply (Slot.required_below name fun _ _ => refines.text).bind
    intro name
    exact (Slot.required_below params fun _ _ => fieldList_below refines).bind fun _ => .refl _
  · exact .none _

theorem constructor_below (refines : form.Refines other R) (related : R a b) :
    Below (Constructor.read? form a) (Constructor.read? other b) := by
  unfold Constructor.read?
  apply refines.record related
  intro slots others all
  rcases all with _ | ⟨typeName, _ | ⟨name, _ | ⟨arguments, _ | _⟩⟩⟩
  · exact .none _
  · exact .none _
  · exact .none _
  · apply (Slot.required_below typeName fun _ _ => refines.text).bind
    intro typeName
    apply (Slot.required_below name fun _ _ => refines.text).bind
    intro name
    exact (Slot.required_below arguments fun _ _ => fieldList_below refines).bind fun _ => .refl _
  · exact .none _

theorem contract_below (refines : form.Refines other R) (related : R a b) :
    Below (Contract.read? form a) (Contract.read? other b) := by
  unfold Contract.read?
  apply refines.record related
  intro slots others all
  rcases all with _ | ⟨name, _ | ⟨params, _ | ⟨fields, _ | ⟨components, _ | ⟨constructors, _ | _⟩⟩⟩⟩⟩
  · exact .none _
  · exact .none _
  · exact .none _
  · exact .none _
  · exact .none _
  · have lists := fun a b => fieldList_below (a := a) (b := b) refines
    apply (Slot.required_below name fun _ _ => refines.text).bind
    intro name
    apply (Slot.optional_below params (fun _ _ => refines.isNull) lists).bind
    intro params
    apply (Slot.required_below fields lists).bind
    intro fields
    apply (Slot.required_below components fun _ _ related => refines.list related fun _ _ =>
      component_below refines).bind
    intro components
    exact (Slot.required_below constructors fun _ _ related => refines.list related fun _ _ =>
      constructor_below refines).bind fun _ => .refl _
  · exact .none _

end Below

theorem application_reading (c : String) {args : List Field}
    (arguments : (Reading.ofJsonItems (Field.listToJson args)).mapM (·.field) = some args) :
    (Reading.ofJson (applicationToJson c args)).shape = some (.adt c args) := by
  simp [applicationToJson, Reading.ofJson, Reading.ofJsonMembers, Reading.ofMembers,
    Reading.ofItems, Reading.nothing, memberSlots?, memberSlot?, valuesOf, Reading.applicationOf,
    Slot.required, arguments]

theorem map_reading {k v : Field} (key : (Reading.ofJson k.toJson).field = some k)
    (value : (Reading.ofJson v.toJson).field = some v) :
    (Reading.ofJson (.object [("key", k.toJson), ("value", v.toJson)])).shape = some (.map k v) := by
  simp [Reading.ofJson, Reading.ofJsonMembers, Reading.ofMembers, memberSlots?, memberSlot?,
    valuesOf, Reading.applicationOf, Reading.mapOf, Slot.required, key, value]

theorem slot_reading (name type : String) {written : Json} {shape : Shape}
    (present : (Reading.ofJson written).isNull = false)
    (read : (Reading.ofJson written).shape = some shape) :
    (Reading.ofJson (.object [("name", .text name), ("type", .text type),
      ("typeJSON", written)])).field = some ⟨name, type, shape⟩ := by
  simp [Reading.ofJson, Reading.ofJsonMembers, Reading.ofMembers, memberSlots?, memberSlot?,
    valuesOf, Reading.fieldOf, Slot.orDefault, Slot.required, Slot.omissible, Slot.optional,
    Reading.nothing, present, read]

mutual
theorem field_reading : (f : Field) → (Reading.ofJson f.toJson).field = some f
  | ⟨name, type, .unknown⟩ => by
    simp [Field.toJson, Reading.ofJson, Reading.ofJsonMembers, Reading.ofMembers, memberSlots?,
      memberSlot?, valuesOf, Reading.fieldOf, Slot.orDefault, Slot.required, Slot.omissible,
      Slot.optional, Reading.nothing]
  | ⟨name, type, .primitive p⟩ => slot_reading name type rfl rfl
  | ⟨name, type, .adt c args⟩ => by
    have arguments := fields_reading args
    exact slot_reading name type rfl (application_reading c arguments)
  | ⟨name, type, .map k v⟩ => by
    have key := field_reading k
    have value := field_reading v
    exact slot_reading name type rfl (map_reading key value)
theorem fields_reading : (fs : List Field) →
    (Reading.ofJsonItems (Field.listToJson fs)).mapM (·.field) = some fs
  | [] => rfl
  | f :: fs => by
    have first := field_reading f
    have rest := fields_reading fs
    simp [Field.listToJson, Reading.ofJsonItems, first, rest]
end

theorem shape_stored {shape : Shape} {written : Json} (known : shape.toJson? = some written) :
    Shape.ofJson? written = some shape := by
  cases shape with
  | unknown => cases known
  | primitive p =>
    cases known
    rfl
  | adt c args =>
    cases known
    exact application_reading c (fields_reading args)
  | map k v =>
    cases known
    exact map_reading (field_reading k) (field_reading v)

theorem known_stored (name type : String) {shape : Shape} {written : Json}
    (known : shape.toJson? = some written) :
    Field.read? form (.object [("name", .text name), ("type", .text type), ("typeJSON", written)]) =
      some ⟨name, type, shape⟩ := by
  have slots := @slots_of_object
    [("name", .text name), ("type", .text type), ("typeJSON", written)] (by simp)
  have present : written.isNull = false := by
    cases shape <;> cases known <;> rfl
  simp only [List.map_cons, List.map_nil] at slots
  simp [Field.read?, slots, form_text, form_value, form_isNull, Slot.orDefault, Slot.required,
    Slot.omissible, Slot.optional, present, shape_stored known]

theorem field_stored (f : Field) : Field.read? form f.toJson = some f := by
  obtain ⟨name, type, shape⟩ := f
  cases shape with
  | unknown =>
    simp [Field.toJson, Field.read?, form, Form.slots?, asObject?, asText?, memberSlots?,
      memberSlot?, valuesOf, Slot.orDefault, Slot.required, Slot.omissible, Slot.optional]
  | primitive p => exact known_stored name type rfl
  | adt c args => exact known_stored name type rfl
  | map k v => exact known_stored name type rfl

theorem items_stored {α β : Type} {write : α → β} {read : β → Option α}
    (each : ∀ x, read (write x) = some x) (xs : List α) : (xs.map write).mapM read = some xs := by
  induction xs with
  | nil => rfl
  | cons x xs ih => simp [each, ih]

theorem fieldList_map (fs : List Field) : Field.listToJson fs = fs.map Field.toJson := by
  induction fs with
  | nil => rfl
  | cons f fs ih => simp [Field.listToJson, ih]

theorem fieldList_stored (fs : List Field) :
    Field.listRead? form (.array (Field.listToJson fs)) = some fs := by
  rw [fieldList_map, Field.listRead?, form_list]
  exact items_stored field_stored fs

theorem component_stored (c : Component) : Component.read? form c.toJson = some c := by
  have slots := @slots_of_object [("kind", .text c.kind), ("name", .text c.name),
    ("params", .array (Field.listToJson c.params))] (by simp)
  simp only [List.map_cons, List.map_nil] at slots
  simp [Component.toJson, Component.read?, slots, Slot.required, form_text, fieldList_stored]

theorem constructor_stored (k : Constructor) : Constructor.read? form k.toJson = some k := by
  have slots := @slots_of_object [("typeName", .text k.typeName), ("constructorName", .text k.name),
    ("argumentTypes", .array (Field.listToJson k.arguments))] (by simp)
  simp only [List.map_cons, List.map_nil] at slots
  simp [Constructor.toJson, Constructor.read?, slots, Slot.required, form_text, fieldList_stored]

theorem params_stored (params : Option (List Field)) :
    (Slot.given (Contract.paramsToJson params)).optional form.isNull (Field.listRead? form) =
      some params := by
  cases params with
  | none => rfl
  | some fields =>
    have list := fieldList_stored fields
    simp [Slot.optional, Contract.paramsToJson, form_isNull, isNull, list]

theorem contract_stored (c : Contract) : Contract.read? form c.toJson = some c := by
  have slots := @slots_of_object [("name", .text c.name),
    ("constructorParams", Contract.paramsToJson c.params),
    ("fields", .array (Field.listToJson c.fields)),
    ("transitions", .array (c.components.map Component.toJson)),
    ("ctors", .array (c.constructors.map Constructor.toJson))] (by simp)
  simp only [List.map_cons, List.map_nil] at slots
  simp [Contract.toJson, Contract.read?, slots, Slot.required, form_text, form_list, params_stored,
    fieldList_stored, items_stored component_stored, items_stored constructor_stored]

theorem numberlessItems_map {α : Type} {write : α → Json} (each : ∀ x, Numberless (write x))
    (xs : List α) : NumberlessItems (xs.map write) := by
  induction xs with
  | nil => trivial
  | cons x xs ih => exact ⟨each x, ih⟩

mutual
theorem field_numberless : (f : Field) → Numberless f.toJson
  | ⟨_, _, .unknown⟩ => ⟨trivial, trivial, trivial⟩
  | ⟨_, _, .primitive _⟩ => ⟨trivial, trivial, trivial, trivial⟩
  | ⟨_, _, .adt _ args⟩ =>
    ⟨trivial, trivial, ⟨trivial, fields_numberless args, trivial⟩, trivial⟩
  | ⟨_, _, .map k v⟩ =>
    ⟨trivial, trivial, ⟨field_numberless k, field_numberless v, trivial⟩, trivial⟩
theorem fields_numberless : (fs : List Field) → NumberlessItems (Field.listToJson fs)
  | [] => trivial
  | f :: fs => ⟨field_numberless f, fields_numberless fs⟩
end

theorem contract_numberless (c : Contract) : Numberless c.toJson := by
  have params : Numberless (Contract.paramsToJson c.params) := by
    cases c.params with
    | none => trivial
    | some fields => exact fields_numberless fields
  have fields := fields_numberless c.fields
  have components := numberlessItems_map (fun m : Component =>
    show Numberless m.toJson from ⟨trivial, trivial, fields_numberless m.params, trivial⟩)
    c.components
  have constructors := numberlessItems_map (fun k : Constructor =>
    show Numberless k.toJson from ⟨trivial, trivial, fields_numberless k.arguments, trivial⟩)
    c.constructors
  exact ⟨trivial, params, fields, components, constructors, trivial⟩

theorem contract_parsed {c d : Contract}
    (here : (Raw.parse? c.toJson.pretty >>= Contract.read? Raw.form) = some d) : d = c :=
  parsed_unique (contract_numberless c) (contract_stored c)
    (contract_below (clipped_refines depthLimit) ⟨0, rfl⟩) here

theorem contract_restored {c : Contract} (fits : c.toJson.nesting ≤ depthLimit) :
    (Raw.parse? c.toJson.pretty >>= Contract.read? Raw.form) = some c :=
  parsed_whole (contract_numberless c) (contract_stored c)
    (contract_below (whole_refines depthLimit) (whole_of_fits fits))

end TypedContracts
