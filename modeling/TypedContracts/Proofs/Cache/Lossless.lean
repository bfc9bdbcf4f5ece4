import TypedContracts.Proofs.Cache.History

/-!
Nothing of the entries is lost in the file of a cache. Every part of a model reads back from the JSON
it is written as, so a saved cache is loaded again whenever JSON itself is read back from its text.
-/
namespace TypedContracts.Cache
open Json

theorem shape_member (f : Field) : f.toJson.member? "typeJSON" = f.shape.toJson? := by
  obtain ⟨name, type, shape⟩ := f
  cases shape <;> rfl

theorem load_saved_text {c : Cache} (sorted : Sorted c.entries) {files : Files}
    (grounded : files.Grounded) (done : (c.save files).2 = .ok ())
    (faithful : parse? c.entries.toJson.pretty = some c.entries.toJson) :
    load (c.save files).1 c.file = .ok c := by
  have fits := (parse_pretty_iff (entries_numberless c.entries)).mp faithful
  exact ((save_in_step grounded done).2.mpr (entries_restored sorted fits)).2

theorem load_saved_unique {c d : Cache} (sorted : Sorted c.entries) {files : Files}
    (grounded : files.Grounded) (done : (c.save files).2 = .ok ())
    (read : load (c.save files).1 c.file = .ok d) : d = c := by
  obtain ⟨there, text⟩ := save_read grounded done
  rw [load, if_pos there, text] at read
  obtain ⟨_, same, read⟩ := Result.bind_ok_iff.mp read
  cases same
  obtain ⟨entries, parsed, read⟩ := Result.bind_ok_iff.mp read
  cases read
  exact cache_ext rfl (entries_parsed sorted (Result.ofOption_ok_iff.mp parsed))

/-- Fields, shapes and entries read back as what they were written from: a shape never as one of
another kind, and a field without a shape as a field without one. A file that was saved gives the
same cache to whoever loads it, and never another one. -/
theorem saved_entries_lossless {c : Cache} (sorted : Sorted c.entries) :
    (∀ f : Field, Field.ofJson? f.toJson = some f ∧
      f.toJson.member? "typeJSON" = f.shape.toJson?) ∧
    (∀ (shape : Shape) (written : Json), shape.toJson? = some written →
      Shape.ofJson? written = some shape) ∧
    Entries.ofJson? c.entries.toJson = some c.entries ∧
    ∀ files : Files, files.Grounded → (c.save files).2 = .ok () →
      let left := (c.save files).1
      left.readText c.file = .ok c.entries.toJson.pretty ∧
      (parse? c.entries.toJson.pretty = some c.entries.toJson → load left c.file = .ok c) ∧
      ∀ d, load left c.file = .ok d → d = c := by
  refine ⟨fun f => ⟨field_reading f, shape_member f⟩, fun _ _ => shape_stored,
    entries_stored sorted, ?_⟩
  intro files grounded done
  exact ⟨(save_read grounded done).2, load_saved_text sorted grounded done,
    fun _ => load_saved_unique sorted grounded done⟩

def vault : Contract where
  name := "Vault"
  params := some []
  fields := [⟨"funds", "Map ByStr20 (Option Uint128)",
      .map (.ofPrimitive "ByStr20") ⟨"", "Option Uint128", .adt "Option" [.ofPrimitive "Uint128"]⟩⟩,
    ⟨"since", "BNum", .unknown⟩]
  components := [⟨"CompTrans", "Fill", [(Field.ofPrimitive "Uint128").named "by"]⟩]
  constructors := [⟨"Pick", "Left", [.ofPrimitive "Uint32"]⟩]

theorem vault_saved :
    let c : Cache := ⟨"cache", [("/A.scillib", entryOf "library New"),
      ("/B.scilla", ⟨"00", "/B.scilla", vault⟩)]⟩
    let files := desk "library New"
    Sorted c.entries ∧ files.Grounded ∧ (c.save files).2 = .ok () ∧
      Entries.ofJson? c.entries.toJson = some c.entries ∧
      load (c.save files).1 "cache" = .ok c := by
  intro c files
  have sorted : Sorted c.entries := by
    simp only [Sorted, c, List.pairwise_pair]
    decide
  have grounded : files.Grounded := ⟨_, rfl⟩
  have done : (c.save files).2 = .ok () := desk_saves _ _
  have faithful : parse? c.entries.toJson.pretty = some c.entries.toJson :=
    (parse_pretty_iff (entries_numberless c.entries)).mpr (by decide)
  obtain ⟨-, -, stored, saved⟩ := saved_entries_lossless sorted
  exact ⟨sorted, grounded, done, stored, (saved files grounded done).2.1 faithful⟩

end TypedContracts.Cache
