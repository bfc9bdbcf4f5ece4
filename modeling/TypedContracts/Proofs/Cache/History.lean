import TypedContracts.Proofs.Cache.Save
import TypedContracts.Proofs.Source.Find

/-!
A cache and its file through any row of calls. An update alone changes entries and leaves the file,
and a refresh looks only at what its own update changed, so the file can stay behind the entries; it
never does while every change has been saved.
-/
namespace TypedContracts.Cache
open Json

/-- Files that differ anywhere but at the path. -/
def Spared (path : String) (files others : Files) : Prop :=
  others.exists? path = files.exists? path ∧ others.readBytes path = files.readBytes path

/-- A cache and the files around it after any calls, of which any may have failed, and any edits
between them that spare its file. A refresh is an update and at most a save. The flag is raised when
entries changed or a save failed, and lowered when a save went well. -/
inductive History : Cache → Files → Bool → Prop where
  | loaded {files : Files} (grounded : files.Grounded) {file : String} {c : Cache}
      (read : load files file = .ok c) : History c files false
  | edited {c : Cache} {files : Files} {unsaved : Bool} (before : History c files unsaved)
      {others : Files} (grounded : others.Grounded) (spared : Spared c.file files others) :
      History c others unsaved
  | updated {c : Cache} {files : Files} {unsaved : Bool} (before : History c files unsaved)
      (compiler : Compiler) (root : String) :
      History (c.update files compiler root).cache files
        (unsaved || decide ((c.update files compiler root).cache.entries ≠ c.entries))
  | saved {c : Cache} {files : Files} {unsaved : Bool} (before : History c files unsaved)
      (done : (c.save files).2 = .ok ()) : History c (c.save files).1 false
  | saveFailed {c : Cache} {files : Files} {unsaved : Bool} (before : History c files unsaved)
      {fault : Error} (failed : (c.save files).2 = .error fault) :
      History c (c.save files).1 true

variable {c : Cache} {files others : Files} {compiler : Compiler} {root : String} {unsaved : Bool}
  {report : Report}

theorem load_spared {path : String} (spared : Spared path files others) :
    load others path = load files path := by
  obtain ⟨there, bytes⟩ := spared
  simp [load, Files.readText, there, bytes]

theorem cache_ext {c d : Cache} (file : c.file = d.file) (entries : c.entries = d.entries) :
    c = d := by
  cases c
  cases d
  cases file
  cases entries
  rfl

structure Kept (c : Cache) (files : Files) (unsaved : Bool) : Prop where
  sorted : Sorted c.entries
  grounded : files.Grounded
  inStep : unsaved = false → files.exists? c.file = true → Restorable c.entries → InStep c files

theorem history_kept (history : History c files unsaved) : Kept c files unsaved := by
  induction history with
  | loaded grounded read =>
    obtain ⟨rfl, sorted⟩ := load_sorted read
    exact ⟨sorted, grounded, fun _ there _ => ⟨there, read⟩⟩
  | edited before grounded spared ih =>
    refine ⟨ih.sorted, grounded, fun clean there restorable => ⟨there, ?_⟩⟩
    rw [load_spared spared]
    exact (ih.inStep clean (spared.1.symm.trans there) restorable).2
  | updated before compiler root ih =>
    refine ⟨update_sorted ih.sorted _ compiler root, ih.grounded, fun clean there restorable => ?_⟩
    obtain ⟨clean, same⟩ := Bool.or_eq_false_iff.mp clean
    have unchanged := cache_ext (update_file _ _ compiler root) (by simpa using same)
    rw [unchanged] at there restorable ⊢
    exact ih.inStep clean there restorable
  | saved before done ih =>
    exact ⟨ih.sorted, save_grounded ih.grounded, fun _ _ restorable =>
      (save_in_step ih.grounded done).2.mpr restorable⟩
  | saveFailed before failed ih =>
    exact ⟨ih.sorted, save_grounded ih.grounded, fun clean => nomatch clean⟩

theorem history_refreshed (history : History c files unsaved) (compiler : Compiler)
    (root : String) :
    ∃ left, History (c.refresh files compiler root).1.cache
      (c.refresh files compiler root).2 left := by
  have updated := history.updated compiler root
  cases done : (c.update files compiler root).report with
  | error fault =>
    rw [refresh_failed done]
    exact ⟨_, updated⟩
  | ok report =>
    cases saves : report.changed || !files.exists? c.file with
    | true =>
      rw [refresh_saving done saves]
      cases wrote : ((c.update files compiler root).cache.save files).2 with
      | ok _ => exact ⟨_, updated.saved wrote⟩
      | error fault => exact ⟨_, updated.saveFailed wrote⟩
    | false =>
      rw [refresh_resting done saves]
      exact ⟨_, updated⟩

theorem refresh_unbroken (kept : Kept c files false)
    (done : (c.refresh files compiler root).1.report = .ok report)
    (fits : (c.refresh files compiler root).1.cache.entries.toJson.nesting ≤ depthLimit) :
    InStep (c.refresh files compiler root).1.cache (c.refresh files compiler root).2 := by
  have same := refresh_cache c files compiler root
  have sorted := update_sorted kept.sorted files compiler root
  rw [← same] at sorted
  have restorable : Restorable (c.refresh files compiler root).1.cache.entries :=
    entries_restored sorted fits
  refine (refresh_step kept.grounded done).2.mpr ?_
  split
  · exact restorable
  · rename_i rests
    obtain ⟨quiet, there⟩ : report.changed = false ∧ files.exists? c.file = true := by
      simpa using rests
    rw [same, update_quiet (refresh_done_iff.mp done).1 quiet] at restorable
    exact kept.inStep rfl there restorable

/-- After a refresh that ends well the file is there. If the refresh had something to save, what it
saved is in the file; if not, the file is in step exactly when it was in step before, so only
entries that an earlier call left unsaved can be missing. A file in step gives the same cache
to whoever reads it next, and its update gives the compiler no source whose hash is known. A refresh,
well ended or not, is a call like the others and may come before the next. -/
theorem refresh_in_step (history : History c files unsaved) (compiler : Compiler) (root : String)
    (done : (c.refresh files compiler root).1.report = .ok report) :
    let after := (c.refresh files compiler root).1.cache
    let left := (c.refresh files compiler root).2
    left.exists? c.file = true ∧
      (InStep after left ↔
        if report.changed || !files.exists? c.file then Restorable after.entries
        else InStep c files) ∧
      (unsaved = false → after.entries.toJson.nesting ≤ depthLimit → InStep after left) ∧
      (InStep after left → ∀ others, Spared c.file left others →
        load others c.file = .ok after ∧ ∀ compiler root path e,
          after.entries.lookup path = some e → fileHash others path = .ok e.hash →
            path ∉ (after.update others compiler root).asked) ∧
      ∀ c files unsaved, History c files unsaved → ∀ compiler root, ∃ flag,
        History (c.refresh files compiler root).1.cache (c.refresh files compiler root).2 flag := by
  intro after left
  have kept := history_kept history
  obtain ⟨there, inStep⟩ := refresh_step kept.grounded done
  refine ⟨there, inStep, ?_, ?_, fun _ _ _ => history_refreshed⟩
  · rintro rfl fits
    exact refresh_unbroken kept done fits
  · rintro ⟨_, read⟩ others spared
    have file : after.file = c.file :=
      (congrArg Cache.file (refresh_cache c files compiler root)).trans
        (update_file c files compiler root)
    rw [file] at read
    exact ⟨(load_spared spared).trans read, fun _ _ _ _ known current =>
      update_unasked known current⟩

def desk (library : String) : Files :=
  ⟨.directory [("A.scillib", .file (Text.Utf8.bytesOf library)),
    ("cache", .file (Text.Utf8.bytesOf "\x7b\x7d"))], []⟩

theorem desk_library (library : String) : (desk library).node "/A.scillib" =
    .ok (["A.scillib"], .file (Text.Utf8.bytesOf library)) :=
  Files.node_file rfl rfl (by decide) (by decide) (by decide) rfl

theorem desk_cache (library path : String) (checked : Files.checkPath path = .ok ())
    (origin : (desk library).origin path = []) (steps : Files.steps path = ["cache"]) :
    (desk library).node path = .ok (["cache"], .file (Text.Utf8.bytesOf "\x7b\x7d")) :=
  Files.node_file checked origin steps (by decide) (by decide) rfl

theorem desk_leaves (library : String) : ∀ name ∈ (desk library).children "/",
    (desk library).children (Source.entryPath "/" name) = [] := by
  have children : (desk library).children "/" = _ := Files.children_top rfl
  have first : Source.entryPath "/" "A.scillib" = "/A.scillib" := by decide
  have second : Source.entryPath "/" "cache" = "/cache" := by decide
  have leaf : (desk library).children "/A.scillib" = [] :=
    Files.children_file (desk_library library)
  have beside : (desk library).children "/cache" = [] :=
    Files.children_file (desk_cache library "/cache" rfl rfl (by decide))
  simp [children, first, second, leaf, beside]

theorem desk_sources (library : String) : Source.find (desk library) "/" = ["/A.scillib"] := by
  have children : (desk library).children "/" = _ := Files.children_top rfl
  have first : Source.entryPath "/" "A.scillib" = "/A.scillib" := by decide
  have second : Source.entryPath "/" "cache" = "/cache" := by decide
  have source : Source.isSource "/A.scillib" = true := by decide
  have other : Source.isSource "/cache" = false := by decide
  have sorted : Path.sorted ["/A.scillib"] = ["/A.scillib"] := List.mergeSort_singleton _
  rw [Source.find_top (desk_leaves library), children]
  simp [first, second, source, other, sorted]

theorem desk_searched (library : String) :
    (desk library).canonical "/" >>= Source.search (desk library) = .ok ["/A.scillib"] := by
  have directories : (desk library).directories "/" = _ := Files.directories_top rfl
  have listed : Source.Listed (desk library) "/" :=
    Source.listed_top (desk_leaves library) (by simp [directories, Node.isDirectory])
  exact Source.search_canonical_iff.mpr
    ⟨"/", Files.canonical_top _, listed, (desk_sources library).symm⟩

def entryOf (library : String) : Entry :=
  ⟨Digest.contentHash (Text.Utf8.bytesOf library), "/A.scillib", Source.libraryOf library⟩

theorem desk_bytes (library : String) :
    (desk library).readBytes "/A.scillib" = .ok (Text.Utf8.bytesOf library) :=
  Files.readBytes_file (desk_library library)

theorem desk_hash (library : String) :
    fileHash (desk library) "/A.scillib" = .ok (entryOf library).hash := by
  rw [fileHash, desk_bytes]
  rfl

theorem desk_model (library : String) (compiler : Compiler) :
    Source.model (desk library) compiler "/A.scillib" = .ok (entryOf library).contract := by
  have isLibrary : Source.isLibrary "/A.scillib" = true := by decide
  have text := Files.readText_bytes (desk_bytes library)
  rw [Source.model, if_pos isLibrary, text]
  rfl

theorem desk_first (library : String) (compiler : Compiler) (file : String) :
    (⟨file, []⟩ : Cache).update (desk library) compiler "/" =
      ⟨⟨file, [("/A.scillib", entryOf library)]⟩, [], .ok ⟨["/A.scillib"], [], [], []⟩⟩ := by
  have isLibrary : Source.isLibrary "/A.scillib" = true := by decide
  simp [update, desk_searched, Pass.scan, desk_hash, Pass.visit, desk_model, Source.asked, isLibrary,
    Pass.accept, Pass.prune, insertMember, Report.empty, entryOf]

theorem desk_again (library : String) (compiler : Compiler) (file : String) :
    (⟨file, [("/A.scillib", entryOf library)]⟩ : Cache).update (desk library) compiler "/" =
      ⟨⟨file, [("/A.scillib", entryOf library)]⟩, [], .ok ⟨[], ["/A.scillib"], [], []⟩⟩ := by
  simp [update, desk_searched, Pass.scan, desk_hash, Pass.visit, Pass.keep, Pass.prune,
    Report.empty]

theorem desk_loaded (library : String) : (desk library).exists? "cache" = true ∧
    load (desk library) "cache" = .ok ⟨"cache", []⟩ := by
  have node := desk_cache library "cache" rfl rfl (by decide)
  have bytes : (desk library).readBytes "cache" = .ok (Text.Utf8.bytesOf "\x7b\x7d") :=
    Files.readBytes_file node
  have there := (Files.readBytes_place bytes).1
  have printed : (Entries.toJson []).pretty = "\x7b\x7d" := by decide
  have parsed : Entries.parse? "\x7b\x7d" = some [] := by
    rw [← printed]
    exact entries_restored .nil (by decide)
  refine ⟨there, ?_⟩
  rw [load, if_pos there, Files.readText_bytes bytes]
  simp only [parsed, Result.ofOption, bind, Except.bind]
  rfl

theorem desk_saves (library : String) (entries : Entries) :
    ((⟨"cache", entries⟩ : Cache).save (desk library)).2 = .ok () := by
  have parent : Path.parent? "cache" = some "" := by decide
  have steps : Files.steps "cache" = ["cache"] := by decide
  have short : ¬Files.nameLimit < "cache".utf8ByteSize := by decide
  have led : (desk library).resolveNew "cache" =
      .ok ⟨["cache"], some (.file (Text.Utf8.bytesOf "\x7b\x7d"))⟩ := by
    refine Files.walk_ok_iff.mpr ⟨rfl, ?_⟩
    simp [steps, Files.follow, Files.origin, short, desk, Node.lookup?, List.lookup]
  simp [save, ensureDirectory, parent, Files.writeText, Files.write, led]

def noDump : Compiler := fun _ _ => .error .json

theorem first_refresh_in_step :
    let refreshed := (⟨"cache", []⟩ : Cache).refresh (desk "library New") noDump "/"
    refreshed.1.cache.entries = [("/A.scillib", entryOf "library New")] ∧
      InStep refreshed.1.cache refreshed.2 := by
  intro refreshed
  have grounded : (desk "library New").Grounded := ⟨_, rfl⟩
  have loaded := (desk_loaded "library New").2
  have done : refreshed.1.report = .ok ⟨["/A.scillib"], [], [], []⟩ := by
    refine refresh_done_iff.mpr ⟨by rw [desk_first], fun _ => ?_⟩
    rw [desk_first]
    exact desk_saves _ _
  have step := refresh_in_step (.loaded grounded loaded) noDump "/" done
  have entries : refreshed.1.cache.entries = [("/A.scillib", entryOf "library New")] := by
    rw [refresh_cache, desk_first]
  have fits : refreshed.1.cache.entries.toJson.nesting ≤ depthLimit := by
    rw [entries]
    decide
  exact ⟨entries, step.2.2.1 rfl fits⟩

/-- What an update changed on its own is not in the file after the refresh that follows. -/
theorem bare_update_left_behind :
    let empty : Cache := ⟨"cache", []⟩
    let files := desk "library New"
    let refreshed := (empty.update files noDump "/").cache.refresh files noDump "/"
    load files "cache" = .ok empty ∧
      refreshed.1.report = .ok ⟨[], ["/A.scillib"], [], []⟩ ∧
      refreshed.1.cache.entries = [("/A.scillib", entryOf "library New")] ∧
      load refreshed.2 "cache" = .ok empty := by
  intro empty files refreshed
  obtain ⟨there, loaded⟩ := desk_loaded "library New"
  have updated := desk_again "library New" noDump "cache"
  have rests := refresh_resting (congrArg Outcome.report updated) (by
    rw [there]
    rfl)
  have same : refreshed = (⟨⟨"cache", [("/A.scillib", entryOf "library New")]⟩, [],
      .ok ⟨[], ["/A.scillib"], [], []⟩⟩, files) := by
    rw [← updated, ← rests]
    simp only [refreshed, empty, files, desk_first]
  rw [same]
  exact ⟨loaded, rfl, rfl, loaded⟩

end TypedContracts.Cache
