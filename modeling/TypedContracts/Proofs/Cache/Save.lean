import TypedContracts.Proofs.Cache.Report
import TypedContracts.Proofs.Cache.Stored
import TypedContracts.Proofs.Cache.Update
import TypedContracts.Proofs.Files.Write
import TypedContracts.Proofs.Result
import TypedContracts.Proofs.Text.Utf8

/-!
What a save leaves in the file of a cache. Whoever loads the file then gets the entries that were
saved, if they can be read at all, and a refresh saves exactly if its own update changed an entry or
there is no file.
-/
namespace TypedContracts.Cache
open Json

def InStep (c : Cache) (files : Files) : Prop :=
  files.exists? c.file = true ∧ load files c.file = .ok c

def Restorable (entries : Entries) : Prop :=
  Entries.parse? entries.toJson.pretty = some entries

variable {c : Cache} {files : Files} {compiler : Compiler} {root : String} {report : Report}

theorem read_sorted {α : Type} {form : Form α} {a : α} {entries : Entries}
    (read : Entries.read? form a = some entries) : Sorted entries := by
  obtain ⟨_, _, read⟩ := Option.bind_eq_some_iff.mp read
  obtain ⟨listed, _, read⟩ := Option.bind_eq_some_iff.mp read
  cases read
  have each : ∀ rest done : Entries, Sorted done →
      Sorted (rest.foldl (fun sorted e => insertMember e.1 e.2 sorted) done) := by
    intro rest
    induction rest with
    | nil => exact fun done sorted => sorted
    | cons e rest ih => exact fun done sorted => ih _ (insertMember_sorted sorted)
  exact each listed [] .nil

theorem load_sorted {file : String} (read : load files file = .ok c) :
    c.file = file ∧ Sorted c.entries := by
  unfold load at read
  split at read
  · obtain ⟨text, _, read⟩ := Result.bind_ok_iff.mp read
    obtain ⟨entries, parsed, read⟩ := Result.bind_ok_iff.mp read
    obtain ⟨_, _, here⟩ := Option.bind_eq_some_iff.mp (Result.ofOption_ok_iff.mp parsed)
    cases read
    exact ⟨rfl, read_sorted here⟩
  · cases read
    exact ⟨rfl, .nil⟩

theorem scan_sorted {p : Pass} (sorted : Sorted p.entries) {sources : List String} :
    Sorted (p.scan files compiler sources).1.entries := by
  induction sources generalizing p with
  | nil => exact sorted
  | cons path sources ih =>
    unfold Pass.scan
    split
    · exact sorted
    · exact ih (visit_sorted sorted _ _)

theorem update_sorted (sorted : Sorted c.entries) (files : Files) (compiler : Compiler)
    (root : String) : Sorted (c.update files compiler root).cache.entries := by
  unfold update
  split
  · exact sorted
  · rename_i found _
    have scanned : Sorted (Pass.scan files compiler ⟨c.entries, .empty, []⟩ found).1.entries :=
      scan_sorted sorted
    dsimp only
    split
    · exact scanned
    · exact sorted_filter scanned _

theorem update_file (c : Cache) (files : Files) (compiler : Compiler) (root : String) :
    (c.update files compiler root).cache.file = c.file := by
  unfold update
  split
  · rfl
  · dsimp only
    split <;> rfl

theorem directory_grounded (grounded : files.Grounded) : (c.ensureDirectory files).1.Grounded := by
  unfold ensureDirectory
  split
  · exact grounded
  · split
    · exact grounded
    · exact Files.ensureDirectory_grounded grounded _

theorem save_grounded (grounded : files.Grounded) : (c.save files).1.Grounded := by
  have made : (c.ensureDirectory files).1.Grounded := directory_grounded grounded
  unfold save
  dsimp only
  split
  · exact made
  · split
    · rename_i wrote
      exact (Files.write_read made wrote).1
    · exact made

theorem save_read (grounded : files.Grounded) (done : (c.save files).2 = .ok ()) :
    (c.save files).1.exists? c.file = true ∧
      (c.save files).1.readText c.file = .ok c.entries.toJson.pretty := by
  have made : (c.ensureDirectory files).1.Grounded := directory_grounded grounded
  unfold save at done ⊢
  dsimp only at done ⊢
  split at done
  · cases done
  · split at done
    · rename_i wrote
      obtain ⟨_, there, bytes⟩ := Files.write_read made wrote
      exact ⟨there, Files.readText_bytes bytes⟩
    · cases done

theorem save_in_step (grounded : files.Grounded) (done : (c.save files).2 = .ok ()) :
    (c.save files).1.exists? c.file = true ∧
      (InStep c (c.save files).1 ↔ Restorable c.entries) := by
  obtain ⟨there, text⟩ := save_read grounded done
  refine ⟨there, ?_⟩
  unfold InStep load Restorable
  rw [if_pos there, text]
  constructor
  · rintro ⟨_, read⟩
    obtain ⟨_, same, read⟩ := Result.bind_ok_iff.mp read
    cases same
    obtain ⟨entries, parsed, read⟩ := Result.bind_ok_iff.mp read
    obtain rfl : entries = c.entries := congrArg Cache.entries (Except.ok.inj read)
    exact Result.ofOption_ok_iff.mp parsed
  · intro parsed
    refine ⟨there, ?_⟩
    simp only [parsed, bind, Except.bind, Result.ofOption]
    rfl

theorem refresh_failed {fault : Error}
    (failed : (c.update files compiler root).report = .error fault) :
    c.refresh files compiler root = (c.update files compiler root, files) := by
  rw [refresh]
  simp only [failed]

theorem refresh_resting (updated : (c.update files compiler root).report = .ok report)
    (rests : (report.changed || !files.exists? c.file) = false) :
    c.refresh files compiler root = (c.update files compiler root, files) := by
  rw [refresh]
  simp only [updated, rests, Bool.false_eq_true, if_false]

theorem refresh_saving (updated : (c.update files compiler root).report = .ok report)
    (saves : (report.changed || !files.exists? c.file) = true) :
    c.refresh files compiler root =
      let saved := (c.update files compiler root).cache.save files
      ({ c.update files compiler root with report := saved.2.map fun _ => report }, saved.1) := by
  rw [refresh]
  simp only [updated, saves, if_true]
  rcases (c.update files compiler root).cache.save files with ⟨saved, _ | _⟩
  · rfl
  · simp only [Except.map, ← updated]

theorem refresh_cache (c : Cache) (files : Files) (compiler : Compiler) (root : String) :
    (c.refresh files compiler root).1.cache = (c.update files compiler root).cache := by
  cases updated : (c.update files compiler root).report with
  | error fault => rw [refresh_failed updated]
  | ok report =>
    cases saves : report.changed || !files.exists? c.file with
    | true => rw [refresh_saving updated saves]
    | false => rw [refresh_resting updated saves]

/-- A refresh ends well when its update does and, if there is something to save, its save. -/
theorem refresh_done_iff : (c.refresh files compiler root).1.report = .ok report ↔
    (c.update files compiler root).report = .ok report ∧
      ((report.changed || !files.exists? c.file) = true →
        ((c.update files compiler root).cache.save files).2 = .ok ()) := by
  cases updated : (c.update files compiler root).report with
  | error fault => simp [refresh_failed updated, updated]
  | ok other =>
    cases saves : other.changed || !files.exists? c.file with
    | true =>
      rw [refresh_saving updated saves]
      simp only [Result.map_ok_iff, Except.ok.injEq]
      constructor
      · rintro ⟨_, done, rfl⟩
        exact ⟨rfl, fun _ => done⟩
      · rintro ⟨rfl, done⟩
        exact ⟨(), done saves, rfl⟩
    | false =>
      rw [refresh_resting updated saves, updated]
      simp only [Except.ok.injEq]
      constructor
      · rintro rfl
        exact ⟨rfl, fun changes => absurd changes (by simp [saves])⟩
      · exact fun both => both.1

/-- A refresh with something to save leaves in the file what it saved; one without leaves the file
and the entries as they were. -/
theorem refresh_step (grounded : files.Grounded)
    (done : (c.refresh files compiler root).1.report = .ok report) :
    (c.refresh files compiler root).2.exists? c.file = true ∧
      (InStep (c.refresh files compiler root).1.cache (c.refresh files compiler root).2 ↔
        if report.changed || !files.exists? c.file then
          Restorable (c.refresh files compiler root).1.cache.entries
        else InStep c files) := by
  obtain ⟨updated, saved⟩ := refresh_done_iff.mp done
  cases saves : report.changed || !files.exists? c.file with
  | true =>
    rw [if_pos rfl, refresh_saving updated saves, ← update_file c files compiler root]
    exact save_in_step grounded (saved saves)
  | false =>
    obtain ⟨quiet, there⟩ : report.changed = false ∧ files.exists? c.file = true := by
      simpa using saves
    rw [refresh_resting updated saves, update_quiet updated quiet]
    exact ⟨there, by simp⟩

end TypedContracts.Cache
