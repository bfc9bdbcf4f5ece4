import TypedContracts.Proofs.Cache.Stored
import TypedContracts.Proofs.Cache.Update
import TypedContracts.Proofs.Files.Write
import TypedContracts.Proofs.Result
import TypedContracts.Proofs.Source.Find
import TypedContracts.Proofs.Text.Utf8

/-!
Runs of a cache. Between its updates, of which any may fail, the files may change in every way, and
a cache may come back from a file that holds what a save of it wrote.
-/
namespace TypedContracts.Cache
open Json
variable {compile : String → List UInt8 → Result String} {S : List UInt8 → Prop}

/-- The caches of a run in which sources never hold other bytes than those of `S`. -/
inductive Reached (compile : String → List UInt8 → Result String) (S : List UInt8 → Prop) :
    Cache → Prop where
  | empty (file : String) : Reached compile S ⟨file, []⟩
  | updated {c : Cache} (before : Reached compile S c) (files : Files) (within : Within S files)
      (root : String) : Reached compile S (c.update files (.ofBytes compile) root).cache
  | reloaded {c d : Cache} (before : Reached compile S c) {files : Files} {file : String}
      (saved : files.readBytes file = .ok (Text.Utf8.bytesOf c.entries.toJson.pretty))
      (loaded : load files file = .ok d) : Reached compile S d

theorem load_saved {entries : Entries} (sorted : Sorted entries) {files : Files} {file : String}
    (saved : files.readBytes file = .ok (Text.Utf8.bytesOf entries.toJson.pretty)) {d : Cache}
    (loaded : load files file = .ok d) : d = ⟨file, entries⟩ := by
  have text := Files.readText_bytes saved
  rw [load, if_pos (Files.readBytes_place saved).1] at loaded
  obtain ⟨_, read, loaded⟩ := Result.bind_ok_iff.mp loaded
  cases text.symm.trans read
  obtain ⟨_, parsed, loaded⟩ := Result.bind_ok_iff.mp loaded
  cases entries_parsed sorted (Result.ofOption_ok_iff.mp parsed)
  exact (Except.ok.inj loaded).symm

theorem reached_sound (collisionFree : CollisionFree S) {c : Cache}
    (reached : Reached compile S c) : Sound compile S c.entries := by
  induction reached with
  | empty file =>
    constructor
    · exact List.Pairwise.nil
    · simp
  | updated before files within root ih => exact update_sound collisionFree within ih root
  | reloaded before saved loaded ih =>
    cases load_saved ih.sorted saved loaded
    exact ih

def scratch (compile : String → List UInt8 → Result String) (c : Cache) (files : Files)
    (root : String) : Outcome :=
  (⟨c.file, []⟩ : Cache).update files (.ofBytes compile) root

/-- In every run, an update that ends well leaves what an update from scratch would leave, one entry
for every source that has a model now; one that fails leaves entries that pair a hash with the model
of bytes that have it. -/
theorem incremental_update_equals_scratch (compile : String → List UInt8 → Result String)
    (S : List UInt8 → Prop) (collisionFree : CollisionFree S) (c : Cache)
    (reached : Reached compile S c) (files : Files) (within : Within S files) (root : String) :
    (∀ report, (c.update files (.ofBytes compile) root).report = .ok report →
      ∃ base other, files.canonical root = .ok base ∧
        (scratch compile c files root).report = .ok other ∧
        (c.update files (.ofBytes compile) root).cache.entries =
          (scratch compile c files root).cache.entries ∧
        Sorted (c.update files (.ofBytes compile) root).cache.entries ∧
        ∀ key e, (key, e) ∈ (c.update files (.ofBytes compile) root).cache.entries ↔
          key ∈ Source.find files base ∧ Fresh compile files key e) ∧
    ∀ fault, (c.update files (.ofBytes compile) root).report = .error fault →
      ∀ key e, (key, e) ∈ (c.update files (.ofBytes compile) root).cache.entries →
        Paired compile S key e := by
  have sound := reached_sound collisionFree reached
  have after := update_sound collisionFree within sound root
  constructor
  · intro report done
    obtain ⟨base, canonical, listed, finished⟩ := (update_done_iff _ root).mp ⟨report, done⟩
    have nothing : Sound compile S (Cache.mk c.file []).entries :=
      reached_sound collisionFree (.empty c.file)
    -- Whether a scan goes through depends on the sources alone, so one from scratch does too.
    have scratchFinished : (Pass.scan files (.ofBytes compile) ⟨[], .empty, []⟩
        (Source.find files base)).2 = .ok () :=
      (scan_result _ _ _ _).trans finished
    obtain ⟨other, scratchDone⟩ := (update_done_iff (c := ⟨c.file, []⟩) _ root).mpr
      ⟨base, canonical, listed, scratchFinished⟩
    have entries := update_entries collisionFree within sound canonical done
    have scratchEntries := update_entries collisionFree within nothing canonical scratchDone
    have scratchSound := update_sound collisionFree within nothing root
    refine ⟨base, other, canonical, scratchDone, ?_, after.sorted, entries⟩
    refine sorted_ext after.sorted scratchSound.sorted ?_
    rintro ⟨key, e⟩
    rw [entries, scratch, scratchEntries]
  · intro fault failed key e member
    exact after.paired key e member

def shelf (text : String) : Files :=
  ⟨.directory [("A.scillib", .file (Text.Utf8.bytesOf text))], []⟩

def noCompiler : String → List UInt8 → Result String := fun _ _ => .error .json

theorem shelf_content {text path : String} {bytes : List UInt8}
    (holds : (shelf text).readBytes path = .ok bytes) : bytes = Text.Utf8.bytesOf text := by
  obtain ⟨_, names, there⟩ := Files.readBytes_place holds
  unfold shelf at there
  cases names with
  | nil => simp [Node.lookup?] at there
  | cons name names =>
    by_cases same : name = "A.scillib"
    · cases names with
      | nil => simpa [Node.lookup?, List.lookup, same, eq_comm] using there
      | cons _ _ => simp [Node.lookup?, List.lookup, same] at there
    · have other : (name == "A.scillib") = false := by simpa using same
      simp [Node.lookup?, List.lookup, other] at there

theorem shelf_library (text : String) : (shelf text).node "/A.scillib" =
    .ok (["A.scillib"], .file (Text.Utf8.bytesOf text)) :=
  Files.node_file rfl rfl (by decide) (by decide) (by decide) rfl

theorem shelf_sources (text : String) : Source.find (shelf text) "/" = ["/A.scillib"] :=
  Source.find_alone rfl (shelf_library text) (by decide) (by decide)

theorem shelf_listed (text : String) : Source.Listed (shelf text) "/" :=
  Source.listed_alone rfl (shelf_library text) (by decide)

def Versions (bytes : List UInt8) : Prop :=
  bytes = Text.Utf8.bytesOf "library Old" ∨ bytes = Text.Utf8.bytesOf "library New"

theorem collisionFree_pair {a b : List UInt8}
    (differ : Digest.contentHash a ≠ Digest.contentHash b) :
    CollisionFree fun bytes => bytes = a ∨ bytes = b := by
  rintro bytes others (rfl | rfl) (rfl | rfl) same
  · rfl
  · exact absurd same differ
  · exact absurd same.symm differ
  · rfl

theorem versions_collisionFree : CollisionFree Versions :=
  collisionFree_pair (by decide +kernel)

theorem edited_library_updated :
    let empty : Cache := ⟨"cache", []⟩
    let before := (empty.update (shelf "library Old") (.ofBytes noCompiler) "/").cache
    let after := before.update (shelf "library New") (.ofBytes noCompiler) "/"
    (∃ report, after.report = .ok report) ∧
      ∃ e, ("/A.scillib", e) ∈ after.cache.entries ∧ e.contract.name = "New" := by
  intro empty before after
  have within : ∀ text, Versions (Text.Utf8.bytesOf text) → Within Versions (shelf text) := by
    intro text version path bytes _ holds
    rwa [shelf_content holds]
  have reached : Reached noCompiler Versions before :=
    .updated (.empty "cache") _ (within _ (.inl rfl)) "/"
  have whole := incremental_update_equals_scratch noCompiler Versions versions_collisionFree before
    reached (shelf "library New") (within _ (.inr rfl)) "/"
  have readable : (shelf "library New").readBytes "/A.scillib" =
      .ok (Text.Utf8.bytesOf "library New") := by
    simp [Files.readBytes, Files.content, shelf_library, Except.mapError]
  have done : ∃ report, after.report = .ok report := by
    refine (update_done_iff _ "/").mpr ⟨"/", Files.canonical_top _, shelf_listed _, ?_⟩
    rw [shelf_sources]
    simp [Pass.scan, fileHash, readable, Except.map]
  obtain ⟨report, finished⟩ := done
  obtain ⟨base, _, canonical, _, _, _, entries⟩ := whole.1 report finished
  cases (Files.canonical_top _).symm.trans canonical
  have model : Source.modelOfBytes noCompiler "/A.scillib" (Text.Utf8.bytesOf "library New") =
      .ok (Source.libraryOf "library New") := by
    have library : Source.isLibrary "/A.scillib" = true := by decide
    simp [Source.modelOfBytes, library, Text.Utf8.decode_bytesOf]
  refine ⟨⟨report, finished⟩, _, (entries "/A.scillib" ⟨_, _, _⟩).mpr ⟨?_, rfl, _, readable, rfl,
    model⟩, by decide⟩
  simp [shelf_sources]

end TypedContracts.Cache
