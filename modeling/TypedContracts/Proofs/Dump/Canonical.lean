import TypedContracts.Proofs.Dump.Reading
import TypedContracts.Proofs.Model.Canonical

/-!
Whatever is extracted from a dump is canonical: each shape is known, each type text is the signature
of its shape, and only what stands at the top level has a name.
-/
namespace TypedContracts

namespace Field

theorem ofPrimitive_positional (type : String) : (ofPrimitive type).Positional :=
  ⟨rfl, rfl, trivial⟩

theorem ofApplication_positional (constructor : String) {arguments : List Field}
    (positional : AllPositional arguments) : (ofApplication constructor arguments).Positional :=
  ⟨rfl, application_text_eq constructor positional, positional⟩

theorem ofMap_positional {key value : Field} (first : key.Positional) (second : value.Positional) :
    (ofMap key value).Positional :=
  ⟨rfl, map_text_eq first second, first, second⟩

theorem named_canonical {f : Field} (positional : f.Positional) (name : String) :
    (f.named name).Canonical := ((positional_iff f).mp positional).2

end Field

namespace Dump
open Result

mutual
theorem typed_positional : {node : SExp} → {f : Field} → Typed node f → f.Positional
  | _, _, .primitive name _ => Field.ofPrimitive_positional name
  | _, _, .address _ => Field.ofPrimitive_positional addressType
  | _, _, .nullary _ => Field.ofApplication_positional _ trivial
  | _, _, .application _ each _ => Field.ofApplication_positional _ (allTyped_positional each)
  | _, _, .map first second =>
    Field.ofMap_positional (typed_positional first) (typed_positional second)
theorem allTyped_positional : {nodes : List SExp} → {fs : List Field} → AllTyped nodes fs →
    Field.AllPositional fs
  | _, _, .nil => trivial
  | _, _, .cons first rest => ⟨typed_positional first, allTyped_positional rest⟩
end

theorem row_canonical {row : SExp} {f : Field} (read : RowRead row f) : f.Canonical := by
  obtain ⟨-, typed, -⟩ := read
  exact Field.named_canonical (typed_positional typed) _

theorem rows_canonical {rows : List SExp} {fs : List Field}
    (each : List.Forall₂ RowRead rows fs) : ∀ f ∈ fs, f.Canonical := by
  intro f member
  obtain ⟨row, -, read⟩ := forall₂_member each member
  exact row_canonical read

theorem component_canonical {row : SExp} {m : Component} (read : ComponentRead row m) :
    ∀ f ∈ m.params, f.Canonical := by
  obtain ⟨-, each, -, -, -, -⟩ := read
  exact rows_canonical each

theorem clause_positional {typeName : String} {clause : SExp} {k : Constructor}
    (read : ClauseRead typeName clause k) : Field.AllPositional k.arguments := by
  obtain ⟨-, -, -, each⟩ := read
  exact allTyped_positional each

theorem entry_positional {entry : SExp} {ks : List Constructor} (read : EntryRead entry ks) :
    ∀ k ∈ ks, Field.AllPositional k.arguments := by
  intro k member
  obtain _ | ⟨-, each, -⟩ := read
  · cases member
  · obtain ⟨clause, -, here⟩ := forall₂_member each member
    exact clause_positional here

theorem libraries_positional {libs : SExp} {ks : List Constructor}
    (read : LibrariesRead libs ks) : ∀ k ∈ ks, Field.AllPositional k.arguments := by
  intro k member
  obtain _ | ⟨-, each, -⟩ := read
  · cases member
  · obtain ⟨group, inGroups, inGroup⟩ := List.mem_flatten.mp member
    obtain ⟨entry, -, here⟩ := forall₂_member each inGroups
    exact entry_positional here k inGroup

theorem listed_positional {rows : List SExp} {ks : List Constructor} (listed : Listed rows ks) :
    ∀ k ∈ ks, Field.AllPositional k.arguments := by
  obtain _ | ⟨-, read⟩ := listed
  · simp
  · exact libraries_positional read

theorem nonEmpty_present (fs : List Field) : nonEmpty fs ≠ some [] := by
  cases fs <;> simp [nonEmpty]

theorem nonEmpty_listed (fs : List Field) : (nonEmpty fs).getD [] = fs := by
  cases fs <;> rfl

theorem module_canonical {module : SExp} {c : Contract} (read : ModuleRead module c) :
    c.Canonical := by
  obtain ⟨-, listed, -, -, -, eachParam, -, eachField, -, eachComponent⟩ := read
  refine ⟨nonEmpty_present _, ?_, rows_canonical eachField, ?_, listed_positional listed⟩
  · rw [Contract.paramList, nonEmpty_listed]
    exact rows_canonical eachParam
  · intro m member
    obtain ⟨row, -, here⟩ := forall₂_member eachComponent member
    exact component_canonical here

theorem read_canonical {text : String} {c : Contract} (here : read text = .ok c) :
    c.Canonical := by
  obtain ⟨module, -, extracted⟩ := bind_ok_iff.mp here
  exact module_canonical (contractOf_ok_iff.mp extracted)

end Dump
end TypedContracts
