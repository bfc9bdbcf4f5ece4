import TypedContracts.Proofs.Cache.Report
import TypedContracts.Proofs.Cache.Run
import TypedContracts.Proofs.Files.Write

/-!
What one bad source does to the others. A source that can be read but has no model is reported and
left without an entry, and the update goes on. A source that cannot be read ends it: the sources in
front have been dealt with, those behind stay as they were. A directory that cannot be listed ends it
before any source is read.
-/
namespace TypedContracts.Cache
open Json
variable {files : Files} {compiler : Compiler} {p : Pass} {path hash : String}
  {sources : List String} {c : Cache}

def Available (files : Files) (path : String) : Prop :=
  ∃ bytes, files.readBytes path = .ok bytes

theorem available_hash (available : Available files path) :
    ∃ hash, fileHash files path = .ok hash := by
  obtain ⟨bytes, holds⟩ := available
  exact ⟨Digest.contentHash bytes, by rw [fileHash, holds]; rfl⟩

/-- The entry that a source is left with, from the one it had: that one if it has the hash of what
the source holds, else one with the model of the source, if there is a model. -/
def dealt (files : Files) (compiler : Compiler) (known : Option Entry) (path : String) :
    Option Entry :=
  match fileHash files path with
  | .error _ => known
  | .ok hash =>
    if known.map (·.hash) = some hash then known
    else (Source.model files compiler path).toOption.map (⟨hash, path, ·⟩)

theorem dealt_readable (readable : fileHash files path = .ok hash) (known : Option Entry) :
    dealt files compiler known path =
      if known.map (·.hash) = some hash then known
      else (Source.model files compiler path).toOption.map (⟨hash, path, ·⟩) := by
  rw [dealt, readable]

theorem dealt_again (known : Option Entry) :
    dealt files compiler (dealt files compiler known path) path =
      dealt files compiler known path := by
  cases readable : fileHash files path with
  | error fault => simp [dealt, readable]
  | ok hash =>
    rw [dealt_readable readable, dealt_readable readable]
    by_cases same : known.map (·.hash) = some hash
    · rw [if_pos same, if_pos same]
    · rw [if_neg same]
      cases Source.model files compiler path <;> simp [Except.toOption]

theorem visit_dealt (readable : fileHash files path = .ok hash) :
    (p.visit files compiler path hash).entries.lookup path =
      dealt files compiler (p.entries.lookup path) path := by
  rw [dealt_readable readable]
  unfold Pass.visit
  split
  · rfl
  · dsimp only
    split
    · rename_i contract model
      rw [model]
      exact (lookup_insertMember _ _ _ _).trans (if_pos rfl)
    · rename_i fault model
      rw [model]
      exact (lookup_removeEntry _ _ _).trans (if_pos rfl)

theorem visit_failed (readable : fileHash files path = .ok hash) :
    (p.visit files compiler path hash).report.failed = p.report.failed ++
      [path].filter fun path => (dealt files compiler (p.entries.lookup path) path).isNone := by
  rw [List.filter_singleton, dealt_readable readable]
  unfold Pass.visit
  split
  · rename_i same
    obtain ⟨e, known, _⟩ := Option.map_eq_some_iff.mp same
    simp [known, Pass.keep]
  · dsimp only
    split
    · rename_i contract model
      simp [model, Pass.accept, Except.toOption]
    · rename_i fault model
      simp [model, Pass.reject, Except.toOption]

theorem visit_kept (readable : fileHash files path = .ok hash) (other : String) :
    dealt files compiler ((p.visit files compiler path hash).entries.lookup other) other =
      dealt files compiler (p.entries.lookup other) other := by
  by_cases here : other = path
  · subst here
    rw [visit_dealt readable, dealt_again]
  · rw [visit_other here]

theorem scan_cons (readable : fileHash files path = .ok hash) :
    p.scan files compiler (path :: sources) =
      (p.visit files compiler path hash).scan files compiler sources := by
  rw [Pass.scan, readable]

theorem scan_unreadable {fault : Error} (unreadable : fileHash files path = .error fault) :
    p.scan files compiler (path :: sources) = (p, .error fault) := by
  rw [Pass.scan, unreadable]

theorem scan_available (compiler : Compiler) (p : Pass)
    (available : ∀ path ∈ sources, Available files path) :
    (p.scan files compiler sources).2 = .ok () ∧
      (∀ path, (p.scan files compiler sources).1.entries.lookup path =
        if path ∈ sources then dealt files compiler (p.entries.lookup path) path
        else p.entries.lookup path) ∧
      (p.scan files compiler sources).1.report.failed = p.report.failed ++
        sources.filter fun path => (dealt files compiler (p.entries.lookup path) path).isNone := by
  induction sources generalizing p with
  | nil => simp [Pass.scan]
  | cons first sources ih =>
    obtain ⟨own, rest⟩ := List.forall_mem_cons.mp available
    obtain ⟨hash, here⟩ := available_hash own
    obtain ⟨done, entries, failed⟩ := ih (p.visit files compiler first hash) rest
    rw [scan_cons here]
    refine ⟨done, ?_, ?_⟩
    · intro path
      rw [entries, visit_kept here]
      by_cases same : path = first
      · subst same
        simp [visit_dealt here]
      · simp [visit_other same, same]
    · rw [failed, visit_failed here]
      simp only [visit_kept here]
      rw [List.append_assoc, ← List.filter_append, List.singleton_append]

theorem scan_behind {before : List String} (available : ∀ path ∈ before, Available files path)
    (behind : List String) : p.scan files compiler (before ++ behind) =
      (p.scan files compiler before).1.scan files compiler behind := by
  induction before generalizing p with
  | nil => rfl
  | cons first before ih =>
    obtain ⟨own, later⟩ := List.forall_mem_cons.mp available
    obtain ⟨hash, here⟩ := available_hash own
    rw [List.cons_append, scan_cons here, scan_cons here]
    exact ih later

theorem scan_stops (files : Files) (compiler : Compiler) (p : Pass) (sources : List String) :
    (∀ path ∈ sources, Available files path) ∨
      ∃ before bad behind fault, sources = before ++ bad :: behind ∧
        (∀ path ∈ before, Available files path) ∧ files.readBytes bad = .error fault ∧
        p.scan files compiler sources = ((p.scan files compiler before).1, .error fault) := by
  rcases Result.all_or_first files.readBytes sources with
    all | ⟨before, bad, behind, fault, rfl, available, holds⟩
  · exact .inl all
  · have unreadable : fileHash files bad = .error fault := by rw [fileHash, holds]; rfl
    refine .inr ⟨before, bad, behind, fault, rfl, available, holds, ?_⟩
    rw [scan_behind available, scan_unreadable unreadable]

section Update
variable {root base : String}

theorem update_unlisted (c : Cache) (compiler : Compiler)
    (canonical : files.canonical root = .ok base) {fault : Error}
    (stopped : Source.search files base = .error fault) :
    c.update files compiler root = ⟨c, [], .error fault⟩ := by
  have whole : files.canonical root >>= Source.search files = .error fault := by
    rw [canonical]
    exact stopped
  rw [update, whole]

theorem update_listed (c : Cache) (compiler : Compiler) (canonical : files.canonical root = .ok base)
    (listed : Source.Listed files base) :
    ((∀ path ∈ Source.find files base, Available files path) ∧
      ∃ report, (c.update files compiler root).report = .ok report ∧
        report.failed = ((Source.find files base).filter fun path =>
          (dealt files compiler (c.entries.lookup path) path).isNone) ∧
        ∀ path, (c.update files compiler root).cache.entries.lookup path =
          if path ∈ Source.find files base then dealt files compiler (c.entries.lookup path) path
          else none) ∨
    ∃ before bad behind fault, Source.find files base = before ++ bad :: behind ∧
      (∀ path ∈ before, Available files path) ∧ files.readBytes bad = .error fault ∧
      (c.update files compiler root).report = .error fault ∧
      ∀ path, (c.update files compiler root).cache.entries.lookup path =
        if path ∈ before then dealt files compiler (c.entries.lookup path) path
        else c.entries.lookup path := by
  unfold update
  rw [Source.search_canonical_iff.mpr ⟨base, canonical, listed, rfl⟩]
  dsimp only
  rcases scan_stops files compiler ⟨c.entries, .empty, []⟩ (Source.find files base) with
    all | ⟨before, bad, behind, fault, found, available, unreadable, stopped⟩
  · obtain ⟨done, entries, failed⟩ := scan_available compiler ⟨c.entries, .empty, []⟩ all
    rw [done]
    refine .inl ⟨all, _, rfl, failed, fun path => ?_⟩
    unfold Pass.prune
    dsimp only
    rw [lookup_filter_keys, entries]
    simp only [List.contains_iff_mem]
    split <;> rfl
  · obtain ⟨_, entries, _⟩ := scan_available compiler ⟨c.entries, .empty, []⟩ available
    rw [stopped]
    exact .inr ⟨before, bad, behind, fault, found, available, unreadable, rfl, entries⟩

theorem update_ended (canonical : files.canonical root = .ok base) {report : Report}
    (done : (c.update files compiler root).report = .ok report) :
    Source.Listed files base ∧ (∀ path ∈ Source.find files base, Available files path) ∧
      report.failed = ((Source.find files base).filter fun path =>
        (dealt files compiler (c.entries.lookup path) path).isNone) ∧
      ∀ path, (c.update files compiler root).cache.entries.lookup path =
        if path ∈ Source.find files base then dealt files compiler (c.entries.lookup path) path
        else none := by
  obtain ⟨_, same, listed, -⟩ := (update_done_iff _ root).mp ⟨report, done⟩
  cases canonical.symm.trans same
  rcases update_listed c compiler canonical listed with
    ⟨all, _, again, failed, entries⟩ | ⟨_, _, _, _, -, -, -, stopped, -⟩
  · cases done.symm.trans again
    exact ⟨listed, all, failed, entries⟩
  · cases stopped.symm.trans done

theorem dealt_fresh {compile : String → List UInt8 → Result String} {S : List UInt8 → Prop}
    (collisionFree : CollisionFree S) (reached : Reached compile S c) (within : Within S files)
    (source : Source.isSource path = true) (available : Available files path)
    (e : Entry) :
    dealt files (.ofBytes compile) (c.entries.lookup path) path = some e ↔
      Fresh compile files path e := by
  obtain ⟨hash, hashed⟩ := available_hash available
  obtain ⟨bytes, holds, rfl⟩ := hash_of_readable hashed
  have sound := reached_sound collisionFree reached
  have known := within path bytes source holds
  have visited := visit_entries collisionFree sound holds known path e
    (p := ⟨c.entries, .empty, []⟩)
  have after := visit_sound collisionFree sound holds known (p := ⟨c.entries, .empty, []⟩)
  rw [← visit_dealt hashed (p := ⟨c.entries, .empty, []⟩), lookup_iff_member after.sorted, visited]
  simp

/-- Under an existing root an update ends well exactly if every directory there can be listed and
every source can be read. Then the sources that are left without an entry are those reported as
failed, and every other source has its entry. Else the first directory that cannot be listed gives
the error and no entry changes, or the first source that cannot be read gives it, and what stands
behind that one is not dealt with. -/
theorem update_blocked_iff (c : Cache) (files : Files) (compiler : Compiler) {root base : String}
    (canonical : files.canonical root = .ok base) :
    let directories := Source.directories files base
    let sources := Source.find files base
    let outcome := c.update files compiler root
    let after := fun path => dealt files compiler (c.entries.lookup path) path
    ((∃ report, outcome.report = .ok report) ↔
      (∀ path ∈ directories, files.Listable path) ∧ ∀ path ∈ sources, Available files path) ∧
      (∀ report, outcome.report = .ok report →
        report.failed = sources.filter (fun path => (after path).isNone) ∧
        ∀ path, outcome.cache.entries.lookup path =
          if path ∈ sources then after path else none) ∧
      (∀ fault, outcome.report = .error fault →
        (∃ before bad behind, directories = before ++ bad :: behind ∧
          (∀ path ∈ before, files.Listable path) ∧ files.list bad = .error fault ∧
          outcome.cache = c) ∨
        (∀ path ∈ directories, files.Listable path) ∧
          ∃ before bad behind, sources = before ++ bad :: behind ∧
            (∀ path ∈ before, Available files path) ∧ files.readBytes bad = .error fault ∧
            ∀ path, outcome.cache.entries.lookup path =
              if path ∈ before then after path else c.entries.lookup path) ∧
      ∀ compile S, compiler = .ofBytes compile → CollisionFree S → Reached compile S c →
        Within S files → ∀ path ∈ sources, Available files path →
          ∀ e, after path = some e ↔ Fresh compile files path e := by
  intro directories sources outcome after
  refine ⟨⟨?_, ?_⟩, ?_, ?_, ?_⟩
  · rintro ⟨report, done⟩
    obtain ⟨listed, all, -⟩ := update_ended canonical done
    exact ⟨listed, all⟩
  · rintro ⟨listed, all⟩
    exact (update_done_iff _ root).mpr ⟨base, canonical, listed, (scan_available _ _ all).1⟩
  · intro report done
    exact (update_ended canonical done).2.2
  · intro fault failed
    -- No source is read before every directory has been listed.
    rcases Source.search_stops files base with
      ⟨listed, -⟩ | ⟨before, bad, behind, unlisted, split, listable, unlistable, stopped⟩
    · rcases update_listed c compiler canonical listed with
        ⟨-, report, done, -⟩ | ⟨before, bad, behind, _, found, available, unreadable, ended, entries⟩
      · cases done.symm.trans failed
      · cases ended.symm.trans failed
        exact .inr ⟨listed, before, bad, behind, found, available, unreadable, entries⟩
    · have unchanged : outcome = _ := update_unlisted c compiler canonical stopped
      rw [unchanged] at failed ⊢
      cases failed
      exact .inl ⟨before, bad, behind, split, listable, unlistable, rfl⟩
  · rintro compile S rfl collisionFree reached within path member available
    exact dealt_fresh collisionFree reached within (Source.find_sources member) available

end Update

def rack (first : Node) : Files :=
  ⟨.directory [("A.scilla", first), ("B.scillib", .file (Text.Utf8.bytesOf "library New"))], []⟩

theorem rack_library (first : Node) : (rack first).node "/B.scillib" =
    .ok (["B.scillib"], .file (Text.Utf8.bytesOf "library New")) :=
  Files.node_file rfl rfl (by decide) (by decide) (by decide) rfl

theorem rack_file (content : List UInt8) : (rack (.file content)).node "/A.scilla" =
    .ok (["A.scilla"], .file content) :=
  Files.node_file rfl rfl (by decide) (by decide) (by decide) rfl

theorem rack_directory : (rack (.directory [])).node "/A.scilla" =
    .ok (["A.scilla"], .directory []) :=
  Files.node_directory rfl rfl (by decide) (by decide) (by decide) rfl

section
variable {first : Node} (leaf : (rack first).children "/A.scilla" = [])
include leaf

theorem rack_leaves : ∀ name ∈ (rack first).children "/",
    (rack first).children (Source.entryPath "/" name) = [] := by
  have children : (rack first).children "/" = _ := Files.children_top rfl
  have spelt : Source.entryPath "/" "A.scilla" = "/A.scilla" := by decide
  have beside : Source.entryPath "/" "B.scillib" = "/B.scillib" := by decide
  have library : (rack first).children "/B.scillib" = [] :=
    Files.children_file (rack_library first)
  simp [children, spelt, beside, leaf, library]

theorem rack_sources : Source.find (rack first) "/" = ["/A.scilla", "/B.scillib"] := by
  have children : (rack first).children "/" = _ := Files.children_top rfl
  have spelt : Source.entryPath "/" "A.scilla" = "/A.scilla" := by decide
  have beside : Source.entryPath "/" "B.scillib" = "/B.scillib" := by decide
  have sources : Source.isSource "/A.scilla" = true ∧ Source.isSource "/B.scillib" = true := by
    decide
  have sorted : Path.sorted ["/A.scilla", "/B.scillib"] = ["/A.scilla", "/B.scillib"] :=
    List.mergeSort_of_pairwise (by decide)
  rw [Source.find_top (rack_leaves leaf), children]
  simp [spelt, beside, sources, sorted]

theorem rack_listed (listable : first.isDirectory = true → (rack first).Listable "/A.scilla") :
    Source.Listed (rack first) "/" := by
  have directories : (rack first).directories "/" = _ := Files.directories_top rfl
  have spelt : Source.entryPath "/" "A.scilla" = "/A.scilla" := by decide
  refine Source.listed_top (rack_leaves leaf) fun name member => ?_
  rw [directories] at member
  obtain ⟨e, among, rfl⟩ := List.mem_map.mp member
  obtain ⟨among, directory⟩ := List.mem_filter.mp among
  rcases List.mem_pair.mp among with rfl | rfl
  · rw [spelt]
    exact listable directory
  · cases directory

end

theorem rack_file_listed (content : List UInt8) : Source.Listed (rack (.file content)) "/" :=
  rack_listed (by rw [Files.children, rack_file]) (by simp [Node.isDirectory])

theorem rack_bytes (first : Node) :
    (rack first).readBytes "/B.scillib" = .ok (Text.Utf8.bytesOf "library New") :=
  Files.readBytes_file (rack_library first)

def RackContent (bytes : List UInt8) : Prop :=
  bytes = [0xff] ∨ bytes = Text.Utf8.bytesOf "library New"

theorem rackContent_collisionFree : CollisionFree RackContent :=
  collisionFree_pair (by decide +kernel)

theorem rack_within : Within RackContent (rack (.file [0xff])) := by
  intro path bytes _ holds
  obtain ⟨_, names, there⟩ := Files.readBytes_place holds
  unfold rack at there
  cases names with
  | nil => simp [Node.lookup?] at there
  | cons name names =>
    by_cases first : name = "A.scilla"
    · cases names with
      | nil => exact .inl (by simpa [Node.lookup?, List.lookup, first, eq_comm] using there)
      | cons _ _ => simp [Node.lookup?, List.lookup, first] at there
    · have other : (name == "A.scilla") = false := by simpa using first
      by_cases second : name = "B.scillib"
      · cases names with
        | nil => exact .inr (by simpa [Node.lookup?, List.lookup, second, eq_comm] using there)
        | cons _ _ => simp [Node.lookup?, List.lookup, second] at there
      · have neither : (name == "B.scillib") = false := by simpa using second
        simp [Node.lookup?, List.lookup, other, neither] at there

theorem rack_text_failed :
    let files := rack (.file [0xff])
    let after := (⟨"cache", []⟩ : Cache).update files (.ofBytes noCompiler) "/"
    files.canonical "/" = .ok "/" ∧
      (∃ report, after.report = .ok report ∧ report.failed = ["/A.scilla"]) ∧
      after.cache.entries.lookup "/A.scilla" = none ∧
      ∃ e, after.cache.entries.lookup "/B.scillib" = some e ∧ e.contract.name = "New" := by
  intro files after
  have canonical : files.canonical "/" = .ok "/" := Files.canonical_top files
  obtain ⟨done, entries, _, fresh⟩ :=
    update_blocked_iff ⟨"cache", []⟩ files (.ofBytes noCompiler) canonical
  have bytes : files.readBytes "/A.scilla" = .ok [0xff] := by
    simp [files, Files.readBytes, Files.content, rack_file, Except.mapError]
  have library : files.readBytes "/B.scillib" = .ok (Text.Utf8.bytesOf "library New") :=
    rack_bytes _
  have sources : Source.find files "/" = ["/A.scilla", "/B.scillib"] :=
    rack_sources (by rw [Files.children, rack_file])
  have available : ∀ path ∈ Source.find files "/", Available files path := by
    rw [sources]
    simp [Available, bytes, library]
  have after_eq := fresh noCompiler RackContent rfl rackContent_collisionFree (.empty "cache")
    rack_within
  have kind : Source.isLibrary "/A.scilla" = false ∧ Source.isLibrary "/B.scillib" = true := by
    decide
  obtain ⟨report, finished⟩ := done.mpr ⟨rack_file_listed _, available⟩
  obtain ⟨failed, lookup⟩ := entries report finished
  have bad : dealt files (.ofBytes noCompiler) none "/A.scilla" = none := by
    refine Option.eq_none_iff_forall_not_mem.mpr fun e dealtWith => ?_
    have made := (after_eq "/A.scilla" (by simp [sources]) ⟨_, bytes⟩ e).mp dealtWith
    obtain ⟨contract, model, _⟩ := (fresh_iff_model bytes e).mp made
    rw [Source.modelOfBytes, kind.1] at model
    cases model
  let entry : Entry := ⟨Digest.contentHash (Text.Utf8.bytesOf "library New"), "/B.scillib",
    Source.libraryOf "library New"⟩
  have good : dealt files (.ofBytes noCompiler) none "/B.scillib" = some entry := by
    refine (after_eq "/B.scillib" (by simp [sources]) ⟨_, library⟩ _).mpr ?_
    refine (fresh_iff_model library _).mpr ⟨_, ?_, rfl⟩
    simp [Source.modelOfBytes, kind.2, Text.Utf8.decode_bytesOf]
  refine ⟨canonical, ⟨report, finished, ?_⟩, ?_, entry, ?_, by decide⟩
  · rw [failed, sources]
    simp [bad, good]
  · rw [lookup, sources]
    simp [bad]
  · rw [lookup, sources]
    simp [good]

/-- A directory with the name of a source does. -/
theorem rack_directory_blocks :
    let files := rack (.directory [])
    let after := (⟨"cache", []⟩ : Cache).update files (.ofBytes noCompiler) "/"
    files.canonical "/" = .ok "/" ∧ Source.find files "/" = ["/A.scilla", "/B.scillib"] ∧
      Source.model files (.ofBytes noCompiler) "/B.scillib" =
        .ok (Source.libraryOf "library New") ∧
      after.report = .error (.file "/A.scilla" .isDirectory) ∧
      after.cache.entries.lookup "/B.scillib" = none := by
  intro files after
  have sources : Source.find files "/" = ["/A.scilla", "/B.scillib"] :=
    rack_sources (by rw [Files.children, rack_directory]; rfl)
  have unreadable : files.readBytes "/A.scilla" = .error (.file "/A.scilla" .isDirectory) := by
    simp [files, Files.readBytes, Files.content, rack_directory, Except.mapError]
  have library : Source.isLibrary "/B.scillib" = true := by decide
  have listed : Source.Listed files "/" := by
    refine rack_listed (by rw [Files.children, rack_directory]; rfl) fun _ => ?_
    exact ⟨_, by rw [Files.list, rack_directory]⟩
  have searched : Source.search files "/" = .ok ["/A.scilla", "/B.scillib"] :=
    Source.search_ok_iff.mpr ⟨listed, sources.symm⟩
  have stopped : after = ⟨⟨"cache", []⟩, [], .error (.file "/A.scilla" .isDirectory)⟩ := by
    simp [after, update, Files.canonical_top, bind, Except.bind, searched, Pass.scan, fileHash,
      unreadable, Except.map]
  refine ⟨Files.canonical_top files, sources, ?_, by rw [stopped], by rw [stopped]; rfl⟩
  rw [Source.model, if_pos library, Files.readText_bytes (rack_bytes _)]
  rfl

end TypedContracts.Cache
