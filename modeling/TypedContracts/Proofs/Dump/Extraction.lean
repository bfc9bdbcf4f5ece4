import TypedContracts.Proofs.Dump.Format
import TypedContracts.Proofs.Dump.Reading
import TypedContracts.Proofs.SExp.Printing

/-!
Extraction undoes the dump: whatever notes a dump carries, the contract it describes comes back, and
it still does after the dump was printed and read, provided that its names are bare atoms and the
notes legible.
-/
namespace TypedContracts.Dump
variable {Note : SExp → Prop}

theorem section_among {tags : List String} {known all : List SExp} {tag : String}
    (among : Among Note tags known all)
    (member : tag ∈ tags) : section? tag all = section? tag known := by
  induction among with
  | nil => rfl
  | @known row known all rest ih =>
    by_cases here : row.tag = some tag
    · simp [section?, here]
    · rw [section_of_foreign here, section_of_foreign here, ih]
  | other allowed foreign rest ih =>
    have elsewhere := fun here => foreign tag here member
    rw [section_of_foreign elsewhere, ih]

theorem ident_named {name : String} {node : SExp} (written : IdentNode Note name node) :
    Named name node := by
  cases written with
  | mk allowed => exact .mk (.inl rfl)

mutual
theorem type_typed : (shape : Shape) → shape.Canonical → ∀ (node : SExp),
    TypeNode Note shape node → Typed node ⟨"", shape.signature, shape⟩
  | .unknown, canonical => canonical.elim
  | .primitive name, _ => by
    intro node written
    cases written with
    | primitive => exact .primitive name []
  | .adt constructor arguments, canonical => by
    intro node written
    cases written with
    | application named types =>
      have positional : Field.AllPositional arguments := canonical
      have typed := types_typed arguments positional _ types
      rw [← application_text_eq constructor positional]
      exact .application (ident_named named) typed []
  | .map key value, canonical => by
    intro node written
    cases written with
    | map first second =>
      obtain ⟨keyPositional, valuePositional⟩ : key.Positional ∧ value.Positional := canonical
      have keyTyped := slot_typed key keyPositional _ first
      have valueTyped := slot_typed value valuePositional _ second
      rw [← map_text_eq keyPositional valuePositional]
      exact .map keyTyped valueTyped
theorem slot_typed : (field : Field) → field.Positional → ∀ (node : SExp),
    TypeNode Note field.shape node → Typed node field
  | ⟨name, type, shape⟩, positional => by
    intro node written
    obtain ⟨rfl, rfl, canonical⟩ : name = "" ∧ type = shape.signature ∧ shape.Canonical :=
      positional
    exact type_typed shape canonical node written
theorem types_typed : (fields : List Field) → Field.AllPositional fields →
    ∀ (nodes : List SExp), TypeNodes Note fields nodes → AllTyped nodes fields
  | [], _ => by
    intro nodes written
    cases written with
    | nil => exact .nil
  | field :: fields, positional => by
    intro nodes written
    cases written with
    | cons first rest =>
      have here := slot_typed field positional.1 _ first
      have later := types_typed fields positional.2 _ rest
      exact .cons here later
end

theorem field_read {f : Field} (canonical : f.Canonical) {row : SExp}
    (written : FieldRow Note f row) : RowRead row f := by
  cases written with
  | mk named typed allowed =>
    obtain ⟨name, type, shape⟩ := f
    obtain ⟨rfl, shapeCanonical⟩ : type = shape.signature ∧ shape.Canonical := canonical
    exact .mk (ident_named named) (type_typed shape shapeCanonical _ typed) _

theorem rows_read {α : Type} {Read : SExp → α → Prop} {Row : α → SExp → Prop} {xs : List α}
    {rows : List SExp} (written : List.Forall₂ Row xs rows)
    (each : ∀ x ∈ xs, ∀ row, Row x row → Read row x) : List.Forall₂ Read rows xs := by
  induction written with
  | nil => exact .nil
  | cons first rest ih =>
    refine .cons (each _ List.mem_cons_self _ first) (ih ?_)
    exact fun x member => each x (List.mem_cons_of_mem _ member)

theorem fields_read {fs : List Field} (canonical : ∀ f ∈ fs, f.Canonical) {rows : List SExp}
    (written : List.Forall₂ (FieldRow Note) fs rows) : List.Forall₂ RowRead rows fs :=
  rows_read written fun f member _ row => field_read (canonical f member) row

theorem component_read {m : Component} (canonical : ∀ f ∈ m.params, f.Canonical) {row : SExp}
    (written : ComponentRow Note m row) : ComponentRead row m := by
  cases written with
  | mk named params allowed =>
    exact .mk (ident_named named) (fields_read canonical params) [] [] [] _

theorem clause_read {k : Constructor} (positional : Field.AllPositional k.arguments)
    {clause : SExp} (written : ClauseNode Note k clause) : ClauseRead k.typeName clause k := by
  cases written with
  | mk named types =>
    exact .mk rfl rfl (ident_named named) (types_typed k.arguments positional _ types)

theorem entries_read {constructors : List Constructor} {entries : List SExp}
    (written : EntryNodes Note constructors entries)
    (positional : ∀ k ∈ constructors, Field.AllPositional k.arguments) :
    ∃ groups, List.Forall₂ EntryRead entries groups ∧ groups.flatten = constructors := by
  induction written with
  | nil => exact ⟨[], .nil, rfl⟩
  | value allowed rest ih =>
    obtain ⟨groups, read, flat⟩ := ih positional
    exact ⟨[] :: groups, .cons (.value _) read, flat⟩
  | @type typeName ident group constructors clauses nodes named same unlisted listed rest ih =>
    obtain ⟨groups, read, flat⟩ := ih fun k member => positional k (List.mem_append_right _ member)
    have clausesRead : List.Forall₂ (ClauseRead typeName) clauses group := by
      refine rows_read listed fun k member clause written => ?_
      rw [← same k member]
      exact clause_read (positional k (List.mem_append_left _ member)) written
    exact ⟨group :: groups, .cons (.type (ident_named named) clausesRead []) read, by simp [flat]⟩

theorem libraries_read {constructors : List Constructor} {node : SExp}
    (written : LibrariesNode Note constructors node)
    (positional : ∀ k ∈ constructors, Field.AllPositional k.arguments) :
    LibrariesRead node constructors := by
  cases written with
  | none empty =>
    subst empty
    exact .none
  | one listed among =>
    obtain ⟨groups, read, rfl⟩ := entries_read listed positional
    exact .first ((section_among among (by simp)).trans section_of_known) read []

theorem nonEmpty_paramList {c : Contract} (present : c.params ≠ some []) :
    nonEmpty c.paramList = c.params := by
  unfold nonEmpty Contract.paramList
  cases h : c.params with
  | none => rfl
  | some fields =>
    cases fields with
    | nil => exact absurd h present
    | cons f fields => rfl

theorem contract_read {c : Contract} (canonical : c.Canonical) {node : SExp}
    (written : ContractNode Note c node) :
    ∃ rows, node = .list rows ∧ ContractRead c.constructors rows c := by
  cases written with
  | @mk ident params fields components rows named paramRows fieldRows componentRows among =>
    have found : ∀ tag ∈ contractTags, section? tag rows = section? tag _ := fun _ =>
      section_among among
    have componentsRead := rows_read componentRows fun m member _ row =>
      component_read (canonical.components m member) row
    have read : ContractRead c.constructors rows
        ⟨c.name, nonEmpty c.paramList, c.fields, c.components, c.constructors⟩ :=
      .mk (found "cname" (by simp [contractTags])) (ident_named named)
        (found "cparams" (by simp [contractTags])) (fields_read canonical.params paramRows)
        (found "cfields" (by simp [contractTags])) (fields_read canonical.fields fieldRows)
        (found "ccomps" (by simp [contractTags])) componentsRead
    rw [nonEmpty_paramList canonical.params_present] at read
    exact ⟨rows, rfl, read⟩

theorem module_extracted {c : Contract} (canonical : c.Canonical) {module : SExp}
    (written : ModuleNode Note c module) : contractOf module = .ok c := by
  cases written with
  | @mk libs contr rows libraries contract among =>
    have libsFound : section? "libs" rows = some libs :=
      section_among among (by simp [moduleTags])
    have contrFound : section? "contr" rows = some contr :=
      section_among among (by simp [moduleTags])
    obtain ⟨contrRows, rfl, read⟩ := contract_read canonical contract
    have listed : Listed rows c.constructors :=
      .present libsFound (libraries_read libraries canonical.constructors)
    exact contractOf_ok_iff.mpr (.mk contrFound listed read)

end TypedContracts.Dump
