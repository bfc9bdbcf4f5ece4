import TypedContracts.Cache.Store
import TypedContracts.Proofs.Files.Place
import TypedContracts.Proofs.Json.Members
import TypedContracts.Proofs.Source.Find

/-!
What one update makes of sound entries. A source that is visited has its entry from the bytes it
holds now, whether the entry was kept or made; no other entry changes until the last step, which
leaves those of the sources.
-/
namespace TypedContracts
open Json

/-- A compiler that looks at a path and the bytes there, at nothing else. -/
def Compiler.ofBytes (compile : String → List UInt8 → Result String) : Compiler :=
  fun files path => do compile path (← files.readBytes path)

namespace Source
variable (compile : String → List UInt8 → Result String)

def modelOfBytes (path : String) (bytes : List UInt8) : Result Contract :=
  if isLibrary path then
    match Text.Utf8.decode bytes with
    | some cs => .ok (libraryOf (String.ofList cs))
    | none => .error (.file path .notUtf8)
  else do Dump.read (← compile path bytes)

theorem model_of_bytes {files : Files} {path : String} {bytes : List UInt8}
    (holds : files.readBytes path = .ok bytes) :
    model files (.ofBytes compile) path = modelOfBytes compile path bytes := by
  unfold model modelOfBytes
  split
  · unfold Files.readText
    simp only [holds, bind, Except.bind]
    cases Text.Utf8.decode bytes <;> rfl
  · have there := (Files.readBytes_place holds).1
    simp only [compiledModel, Files.require, there, Compiler.ofBytes, holds, if_true, bind,
      Except.bind]

theorem find_sources {files : Files} {root path : String} (found : path ∈ find files root) :
    isSource path = true := by
  unfold find at found
  split at found
  · cases found
  · unfold Path.sorted at found
    exact (List.mem_filter.mp (List.mem_mergeSort.mp found)).2

end Source

namespace Cache
variable (compile : String → List UInt8 → Result String) (S : List UInt8 → Prop)

/-- The entry of a path from bytes with the hash it records. -/
def Paired (path : String) (e : Entry) : Prop :=
  e.path = path ∧ ∃ bytes, S bytes ∧ e.hash = Digest.contentHash bytes ∧
    Source.modelOfBytes compile path bytes = .ok e.contract

structure Sound (entries : Entries) : Prop where
  sorted : Sorted entries
  paired : ∀ path e, (path, e) ∈ entries → Paired compile S path e

/-- The entry of a path from the bytes it holds now. -/
def Fresh (files : Files) (path : String) (e : Entry) : Prop :=
  e.path = path ∧ ∃ bytes, files.readBytes path = .ok bytes ∧
    e.hash = Digest.contentHash bytes ∧ Source.modelOfBytes compile path bytes = .ok e.contract

/-- Every source that can be read holds bytes of `S`. -/
def Within (files : Files) : Prop :=
  ∀ path bytes, Source.isSource path = true → files.readBytes path = .ok bytes → S bytes

def CollisionFree : Prop :=
  ∀ bytes others, S bytes → S others → Digest.contentHash bytes = Digest.contentHash others →
    bytes = others

variable {compile S}

theorem fresh_unique {files : Files} {path : String} {e f : Entry}
    (first : Fresh compile files path e) (second : Fresh compile files path f) : e = f := by
  obtain ⟨hash, ePath, contract⟩ := e
  obtain ⟨hash', fPath, contract'⟩ := f
  obtain ⟨rfl, bytes, holds, rfl, model⟩ := first
  obtain ⟨rfl, others, holdsToo, rfl, modelToo⟩ := second
  cases holds.symm.trans holdsToo
  cases model.symm.trans modelToo
  rfl

theorem fresh_paired {files : Files} {path : String} {e : Entry} {bytes : List UInt8}
    (holds : files.readBytes path = .ok bytes) (known : S bytes)
    (fresh : Fresh compile files path e) : Paired compile S path e := by
  obtain ⟨same, others, holdsToo, hash, model⟩ := fresh
  cases holds.symm.trans holdsToo
  exact ⟨same, bytes, known, hash, model⟩

variable {files : Files} {p : Pass} {path : String} {bytes : List UInt8}

/-- An entry with the hash of the source was made from the bytes of the source. -/
theorem fresh_of_hash (collisionFree : CollisionFree S) (holds : files.readBytes path = .ok bytes)
    (known : S bytes) {e : Entry} (paired : Paired compile S path e)
    (hash : e.hash = Digest.contentHash bytes) : Fresh compile files path e := by
  obtain ⟨same, others, othersKnown, othersHash, model⟩ := paired
  obtain rfl : others = bytes :=
    collisionFree others bytes othersKnown known (othersHash.symm.trans hash)
  exact ⟨same, others, holds, othersHash, model⟩

theorem fresh_iff_model (holds : files.readBytes path = .ok bytes) (e : Entry) :
    Fresh compile files path e ↔ ∃ contract, Source.modelOfBytes compile path bytes = .ok contract ∧
      e = ⟨Digest.contentHash bytes, path, contract⟩ := by
  constructor
  · rintro ⟨same, others, holdsToo, hash, model⟩
    cases holds.symm.trans holdsToo
    obtain ⟨_, _, contract⟩ := e
    obtain rfl := same
    obtain rfl := hash
    exact ⟨contract, model, rfl⟩
  · rintro ⟨contract, model, rfl⟩
    exact ⟨rfl, bytes, holds, rfl, model⟩

/-- A visit replaces what is known of its source and nothing else. -/
theorem visit_entries (collisionFree : CollisionFree S) (sound : Sound compile S p.entries)
    (holds : files.readBytes path = .ok bytes) (known : S bytes) (key : String) (e : Entry) :
    (key, e) ∈ (p.visit files (.ofBytes compile) path (Digest.contentHash bytes)).entries ↔
      key = path ∧ Fresh compile files path e ∨ key ≠ path ∧ (key, e) ∈ p.entries := by
  unfold Pass.visit
  split
  · rename_i kept
    obtain ⟨old, found, hash⟩ := Option.map_eq_some_iff.mp kept
    have member := (lookup_iff_member sound.sorted path old).mp found
    have fresh := fresh_of_hash collisionFree holds known (sound.paired path old member) hash
    change (key, e) ∈ p.entries ↔ _
    by_cases here : key = path
    · subst here
      simp only [true_and, ne_eq, not_true_eq_false, false_and, or_false]
      constructor
      · intro also
        rwa [sorted_unique sound.sorted also member]
      · intro also
        rwa [fresh_unique also fresh]
    · simp [here]
  · rw [Source.model_of_bytes compile holds]
    cases model : Source.modelOfBytes compile path bytes with
    | ok contract =>
      have made : Fresh compile files path e ↔ _ := fresh_iff_model holds e
      simp only [Pass.accept, mem_insertMember sound.sorted, made, model, Except.ok.injEq,
        exists_eq_left']
    | error fault =>
      have none : ¬Fresh compile files path e := by
        rw [fresh_iff_model holds, model]
        simp
      simp [Pass.reject, removeEntry, none, and_comm]

theorem visit_sorted (sorted : Sorted p.entries) (hash : String) (compiler : Compiler) :
    Sorted (p.visit files compiler path hash).entries := by
  unfold Pass.visit
  split
  · exact sorted
  · dsimp only
    split
    · exact insertMember_sorted sorted
    · exact sorted_filter sorted _

theorem visit_sound (collisionFree : CollisionFree S) (sound : Sound compile S p.entries)
    (holds : files.readBytes path = .ok bytes) (known : S bytes) :
    Sound compile S
      (p.visit files (.ofBytes compile) path (Digest.contentHash bytes)).entries where
  sorted := visit_sorted sound.sorted _ _
  paired := by
    intro key e member
    rcases (visit_entries collisionFree sound holds known key e).mp member with
      ⟨rfl, fresh⟩ | ⟨_, old⟩
    · exact fresh_paired holds known fresh
    · exact sound.paired key e old

theorem hash_of_readable {hash : String} (readable : fileHash files path = .ok hash) :
    ∃ bytes, files.readBytes path = .ok bytes ∧ hash = Digest.contentHash bytes := by
  unfold fileHash at readable
  cases holds : files.readBytes path with
  | ok bytes =>
    rw [holds] at readable
    exact ⟨bytes, rfl, (Except.ok.inj readable).symm⟩
  | error fault =>
    rw [holds] at readable
    cases readable

/-- Whether a scan ends early depends on the sources, not on what is known of them. -/
theorem scan_result (compiler : Compiler) (p q : Pass) (sources : List String) :
    (p.scan files compiler sources).2 = (q.scan files compiler sources).2 := by
  induction sources generalizing p q with
  | nil => rfl
  | cons path sources ih =>
    unfold Pass.scan
    split
    · rfl
    · exact ih _ _

theorem scan_sound (collisionFree : CollisionFree S) (within : Within S files)
    {sources : List String} (found : ∀ path ∈ sources, Source.isSource path = true)
    (sound : Sound compile S p.entries) :
    Sound compile S (p.scan files (.ofBytes compile) sources).1.entries := by
  induction sources generalizing p with
  | nil => exact sound
  | cons path sources ih =>
    unfold Pass.scan
    split
    · exact sound
    · rename_i hash readable
      obtain ⟨bytes, holds, rfl⟩ := hash_of_readable readable
      have known := within path bytes (found path List.mem_cons_self) holds
      refine ih (fun path member => found path (List.mem_cons_of_mem _ member)) ?_
      exact visit_sound collisionFree sound holds known

theorem scan_entries (collisionFree : CollisionFree S) (within : Within S files)
    {sources : List String} (found : ∀ path ∈ sources, Source.isSource path = true)
    (sound : Sound compile S p.entries)
    (done : (p.scan files (.ofBytes compile) sources).2 = .ok ()) (key : String) (e : Entry) :
    (key, e) ∈ (p.scan files (.ofBytes compile) sources).1.entries ↔
      key ∈ sources ∧ Fresh compile files key e ∨ key ∉ sources ∧ (key, e) ∈ p.entries := by
  induction sources generalizing p with
  | nil => simp [Pass.scan]
  | cons path sources ih =>
    unfold Pass.scan at done ⊢
    split at done
    · cases done
    · rename_i hash readable
      obtain ⟨bytes, holds, rfl⟩ := hash_of_readable readable
      have known := within path bytes (found path List.mem_cons_self) holds
      have visited := visit_sound collisionFree sound holds known
      have rest := ih (fun path member => found path (List.mem_cons_of_mem _ member)) visited done
      have here := visit_entries collisionFree sound holds known key e
      rw [rest, here, List.mem_cons]
      by_cases first : key = path
      · subst first
        by_cases later : key ∈ sources <;> simp [later]
      · simp [first]

variable {c : Cache}

theorem update_done_iff (compiler : Compiler) (root : String) :
    (∃ report, (c.update files compiler root).report = .ok report) ↔
      ∃ base, files.canonical root = .ok base ∧ Source.Listed files base ∧
        (Pass.scan files compiler ⟨c.entries, .empty, []⟩ (Source.find files base)).2 = .ok () := by
  unfold update
  cases searched : files.canonical root >>= Source.search files with
  | error fault =>
    refine iff_of_false (by simp) ?_
    rintro ⟨base, canonical, listed, -⟩
    cases searched.symm.trans (Source.search_canonical_iff.mpr ⟨base, canonical, listed, rfl⟩)
  | ok sources =>
    obtain ⟨base, canonical, listed, rfl⟩ := Source.search_canonical_iff.mp searched
    dsimp only
    split
    · rename_i failed
      simp [canonical, failed]
    · rename_i finished
      simp [canonical, listed, finished]

theorem update_sound (collisionFree : CollisionFree S) (within : Within S files)
    (sound : Sound compile S c.entries) (root : String) :
    Sound compile S (c.update files (.ofBytes compile) root).cache.entries := by
  unfold update
  split
  · exact sound
  · rename_i sources searched
    obtain ⟨base, -, -, rfl⟩ := Source.search_canonical_iff.mp searched
    have scanned : Sound compile S (Pass.scan files (.ofBytes compile) ⟨c.entries, .empty, []⟩
        (Source.find files base)).1.entries :=
      scan_sound collisionFree within (fun _ member => Source.find_sources member) sound
    dsimp only
    split
    · exact scanned
    · constructor
      · exact sorted_filter scanned.sorted _
      · intro path e member
        exact scanned.paired path e (List.mem_filter.mp member).1

theorem update_entries (collisionFree : CollisionFree S) (within : Within S files)
    (sound : Sound compile S c.entries) {root base : String}
    (canonical : files.canonical root = .ok base) {report : Report}
    (done : (c.update files (.ofBytes compile) root).report = .ok report)
    (key : String) (e : Entry) :
    (key, e) ∈ (c.update files (.ofBytes compile) root).cache.entries ↔
      key ∈ Source.find files base ∧ Fresh compile files key e := by
  obtain ⟨_, same, listed, -⟩ := (update_done_iff _ root).mp ⟨report, done⟩
  cases canonical.symm.trans same
  unfold update at done ⊢
  rw [Source.search_canonical_iff.mpr ⟨base, canonical, listed, rfl⟩] at done ⊢
  dsimp only at done ⊢
  split at done
  · cases done
  · rename_i finished
    have scanned := scan_entries collisionFree within
      (fun _ member => Source.find_sources member) sound finished key e
    simp only [Pass.prune, List.mem_filter, List.contains_iff_mem, scanned]
    by_cases source : key ∈ Source.find files base <;> simp [source]

end Cache
end TypedContracts
