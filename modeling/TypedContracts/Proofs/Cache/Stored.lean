import TypedContracts.Cache.Entry
import TypedContracts.Proofs.Json.Members
import TypedContracts.Proofs.Json.Nesting
import TypedContracts.Proofs.Model.Stored

/-!
The file of a cache. Entries sorted by key are written as text, and from that text nothing else can
be read: either the entries again or, when a type is nested too deep, nothing.
-/
namespace TypedContracts
open Json

section Below
variable {α β : Type} {form : Form α} {other : Form β} {R : α → β → Prop} {a : α} {b : β}

theorem entry_below (refines : form.Refines other R) (related : R a b) :
    Below (Entry.read? form a) (Entry.read? other b) := by
  unfold Entry.read?
  apply refines.record related
  intro slots others all
  rcases all with _ | ⟨hash, _ | ⟨path, _ | ⟨contract, _ | _⟩⟩⟩
  · exact .none _
  · exact .none _
  · exact .none _
  · apply (Slot.required_below hash fun _ _ => refines.text).bind
    intro hash
    apply (Slot.required_below path fun _ _ => refines.text).bind
    intro path
    exact (Slot.required_below contract fun _ _ => contract_below refines).bind fun _ => .refl _
  · exact .none _

theorem entries_below (refines : form.Refines other R) (related : R a b) :
    Below (Entries.read? form a) (Entries.read? other b) := by
  intro entries here
  obtain ⟨ms, members, here⟩ := Option.bind_eq_some_iff.mp here
  obtain ⟨ns, otherMembers, all⟩ := refines.members related members
  refine Option.bind_eq_some_iff.mpr ⟨ns, otherMembers, ?_⟩
  refine Below.bind (mapM_below all ?_) (fun _ => .refl _) entries here
  rintro ⟨key, a⟩ ⟨_, b⟩ ⟨rfl, value⟩
  exact (entry_below refines value).map _

end Below

theorem entry_stored (e : Entry) : Entry.read? form e.toJson = some e := by
  have slots := @slots_of_object [("contentHash", .text e.hash), ("path", .text e.path),
    ("parsedContract", e.contract.toJson)] (by simp)
  simp only [List.map_cons, List.map_nil] at slots
  simp [Entry.toJson, Entry.read?, slots, Slot.required, form_text, contract_stored]

theorem entries_stored {entries : Entries} (sorted : Sorted entries) :
    Entries.read? form entries.toJson = some entries := by
  let write := fun e : String × Entry => (e.1, e.2.toJson)
  let read := fun m : String × Json => (Entry.read? form m.2).map fun e => (m.1, e)
  have pairs : ∀ e, read (write e) = some e := by simp [write, read, entry_stored]
  have each := items_stored pairs entries
  simp only [Entries.read?, Entries.toJson, form, asObject?, write, read] at each ⊢
  rw [Option.bind_eq_bind, Option.bind_some, each]
  simp [insert_all_sorted sorted]

theorem entries_numberless (entries : Entries) : Numberless entries.toJson := by
  change NumberlessMembers (entries.map fun e => (e.1, e.2.toJson))
  induction entries with
  | nil => trivial
  | cons e entries ih =>
    have first : Numberless e.2.toJson :=
      ⟨trivial, trivial, contract_numberless e.2.contract, trivial⟩
    exact ⟨first, ih⟩

theorem entries_parsed {entries read : Entries} (sorted : Sorted entries)
    (here : Entries.parse? entries.toJson.pretty = some read) : read = entries :=
  parsed_unique (entries_numberless entries) (entries_stored sorted)
    (entries_below (clipped_refines depthLimit) ⟨0, rfl⟩) here

theorem entries_restored {entries : Entries} (sorted : Sorted entries)
    (fits : entries.toJson.nesting ≤ depthLimit) :
    Entries.parse? entries.toJson.pretty = some entries :=
  parsed_whole (entries_numberless entries) (entries_stored sorted)
    (entries_below (whole_refines depthLimit) (whole_of_fits fits))

end TypedContracts
