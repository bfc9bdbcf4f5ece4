import TypedContracts.Proofs.Cache.Blocking
import TypedContracts.Proofs.Cache.Save
import TypedContracts.Proofs.Source.Root

/-!
What the report of an update accounts for. Each source comes to one verdict, told from the entries
before the update. The report lists the sources by verdict in the order of the search, and with them
the keys that are gone.
-/
namespace TypedContracts

inductive Verdict where
  | parsed
  | unchanged
  | failed
deriving DecidableEq, Repr

/-- What a verdict says of the entry that the source had and of the one it is left with. -/
def Verdict.Says (known left : Option Entry) : Verdict → Prop
  | .parsed => left.isSome ∧ left ≠ known
  | .unchanged => left.isSome ∧ left = known
  | .failed => left = none

def Report.append (r s : Report) : Report :=
  ⟨r.parsed ++ s.parsed, r.unchanged ++ s.unchanged, r.failed ++ s.failed, r.removed ++ s.removed⟩

theorem Report.append_assoc (r s t : Report) : (r.append s).append t = r.append (s.append t) := by
  simp [append]

namespace Cache
open Json
variable {files : Files} {compiler : Compiler} {p : Pass} {path hash : String}
  {sources : List String} {c : Cache} {entries others : Entries}

def verdict (files : Files) (compiler : Compiler) (entries : Entries) (path : String) : Verdict :=
  match fileHash files path with
  | .error _ => .failed
  | .ok hash =>
    if (entries.lookup path).map (·.hash) = some hash then .unchanged
    else match Source.model files compiler path with
      | .ok _ => .parsed
      | .error _ => .failed

def judged (files : Files) (compiler : Compiler) (entries : Entries) (sources : List String)
    (v : Verdict) : List String :=
  sources.filter fun path => verdict files compiler entries path = v

def tally (files : Files) (compiler : Compiler) (entries : Entries) (sources : List String) :
    Report where
  parsed := judged files compiler entries sources .parsed
  unchanged := judged files compiler entries sources .unchanged
  failed := judged files compiler entries sources .failed
  removed := (judged files compiler entries sources .failed).filter fun path =>
    (entries.lookup path).isSome

def compiled (files : Files) (compiler : Compiler) (entries : Entries) (sources : List String) :
    List String :=
  sources.filter fun path =>
    verdict files compiler entries path ≠ .unchanged && !Source.isLibrary path

theorem mem_judged {v : Verdict} : path ∈ judged files compiler entries sources v ↔
    path ∈ sources ∧ verdict files compiler entries path = v := by
  simp [judged]

theorem judged_cases (compiler : Compiler) (entries : Entries) (found : path ∈ sources) :
    path ∈ judged files compiler entries sources .parsed ∨
      path ∈ judged files compiler entries sources .unchanged ∨
      path ∈ judged files compiler entries sources .failed := by
  simp only [mem_judged, found, true_and]
  cases verdict files compiler entries path <;> simp

theorem judged_apart {v w : Verdict} (different : v ≠ w) :
    (judged files compiler entries sources v).Disjoint (judged files compiler entries sources w) :=
  fun _ one other => different ((mem_judged.mp one).2.symm.trans (mem_judged.mp other).2)

theorem verdict_dealt (compiler : Compiler) (readable : fileHash files path = .ok hash)
    (entries : Entries) : (verdict files compiler entries path).Says (entries.lookup path)
      (dealt files compiler (entries.lookup path) path) := by
  rw [dealt_readable readable, verdict, readable]
  dsimp only
  by_cases same : (entries.lookup path).map (·.hash) = some hash
  · rw [if_pos same, if_pos same]
    obtain ⟨e, found, -⟩ := Option.map_eq_some_iff.mp same
    exact ⟨by simp [found], rfl⟩
  · rw [if_neg same, if_neg same]
    cases Source.model files compiler path with
    | error fault => rfl
    | ok contract =>
      refine ⟨rfl, fun old => same ?_⟩
      exact (congrArg (Option.map (·.hash)) old).symm

theorem compiled_eq : compiled files compiler entries sources = sources.filter fun path =>
    (path ∈ judged files compiler entries sources .parsed ∨
      path ∈ judged files compiler entries sources .failed) ∧
        Path.extension? path ≠ some "scillib" := by
  refine List.filter_congr fun path member => ?_
  rw [Bool.eq_iff_iff]
  simp only [mem_judged, member, true_and, Source.isLibrary, Source.libraryExtension]
  cases verdict files compiler entries path <;> simp

theorem visit_tally (compiler : Compiler) (p : Pass)
    (readable : fileHash files path = .ok hash) :
    (p.visit files compiler path hash).report =
        p.report.append (tally files compiler p.entries [path]) ∧
      (p.visit files compiler path hash).asked =
        p.asked ++ compiled files compiler p.entries [path] := by
  obtain ⟨bytes, holds, -⟩ := hash_of_readable readable
  have there : files.exists? path = true := (Files.readBytes_place holds).1
  have asked : Source.asked files path = [path].filter fun path => !Source.isLibrary path := by
    rw [Source.asked, there, Bool.and_true, List.filter_singleton, cond_eq_ite]
  unfold Pass.visit
  split
  · rename_i same
    have kept : verdict files compiler p.entries path = .unchanged := by
      rw [verdict, readable]
      exact if_pos same
    simp [Pass.keep, Report.append, tally, judged, compiled, kept]
  · rename_i differs
    dsimp only
    split
    · rename_i contract model
      have made : verdict files compiler p.entries path = .parsed := by
        rw [verdict, readable]
        simp [differs, model]
      simp [Pass.accept, Report.append, tally, judged, compiled, made, asked, List.filter_singleton]
    · rename_i fault model
      have bad : verdict files compiler p.entries path = .failed := by
        rw [verdict, readable]
        simp [differs, model]
      simp [Pass.reject, Report.append, tally, judged, compiled, bad, asked, List.filter_singleton]

theorem tally_cons (first : String) :
    tally files compiler entries (first :: sources) =
      (tally files compiler entries [first]).append (tally files compiler entries sources) := by
  simp only [tally, judged, Report.append, ← List.filter_append, List.singleton_append]

theorem compiled_cons (first : String) :
    compiled files compiler entries (first :: sources) =
      compiled files compiler entries [first] ++ compiled files compiler entries sources := by
  simp only [compiled, ← List.filter_append, List.singleton_append]

theorem tally_congr (files : Files) (compiler : Compiler)
    (same : ∀ path ∈ sources, entries.lookup path = others.lookup path) :
    tally files compiler entries sources = tally files compiler others sources ∧
      compiled files compiler entries sources = compiled files compiler others sources := by
  have alike : ∀ path ∈ sources,
      verdict files compiler entries path = verdict files compiler others path :=
    fun path member => by rw [verdict, verdict, same path member]
  have each : ∀ v, judged files compiler entries sources v =
      judged files compiler others sources v :=
    fun v => List.filter_congr fun path member => by rw [alike path member]
  constructor
  · have removed : (judged files compiler others sources .failed).filter
          (fun path => (entries.lookup path).isSome) =
        (judged files compiler others sources .failed).filter
          fun path => (others.lookup path).isSome :=
      List.filter_congr fun path member => by rw [same path (mem_judged.mp member).1]
    rw [tally, tally, each, each, each, removed]
  · exact List.filter_congr fun path member => by rw [alike path member]

/-- Sources that stand once each are told from the entries before the scan. -/
theorem scan_tally (compiler : Compiler) (p : Pass) (once : sources.Nodup)
    (available : ∀ path ∈ sources, Available files path) :
    (p.scan files compiler sources).1.report =
        p.report.append (tally files compiler p.entries sources) ∧
      (p.scan files compiler sources).1.asked =
        p.asked ++ compiled files compiler p.entries sources := by
  induction sources generalizing p with
  | nil => simp [Pass.scan, Report.append, tally, judged, compiled]
  | cons first sources ih =>
    obtain ⟨fresh, others⟩ := List.nodup_cons.mp once
    obtain ⟨own, rest⟩ := List.forall_mem_cons.mp available
    obtain ⟨hash, here⟩ := available_hash own
    obtain ⟨report, asked⟩ := ih (p.visit files compiler first hash) others rest
    obtain ⟨firstReport, firstAsked⟩ := visit_tally compiler p here
    have kept : ∀ path ∈ sources, (p.visit files compiler first hash).entries.lookup path =
        p.entries.lookup path := by
      intro path member
      refine visit_other ?_
      rintro rfl
      exact fresh member
    obtain ⟨sameTally, sameCompiled⟩ := tally_congr files compiler kept
    rw [scan_cons here, report, asked, firstReport, firstAsked, sameTally, sameCompiled,
      Report.append_assoc, ← tally_cons, List.append_assoc, ← compiled_cons]
    exact ⟨rfl, rfl⟩

section Update
variable {root base : String} {report : Report}

theorem update_tally (sorted : Sorted c.entries) (canonical : files.canonical root = .ok base)
    (once : (Source.find files base).Nodup)
    (done : (c.update files compiler root).report = .ok report) :
    ∃ gone, report =
        (tally files compiler c.entries (Source.find files base)).append ⟨[], [], [], gone⟩ ∧
      gone.Nodup ∧
      (∀ key, key ∈ gone ↔ (c.entries.lookup key).isSome ∧ key ∉ Source.find files base) ∧
      (c.update files compiler root).asked =
        compiled files compiler c.entries (Source.find files base) := by
  obtain ⟨listed, all, -⟩ := update_ended canonical done
  obtain ⟨finished, entries, -⟩ := scan_available compiler ⟨c.entries, .empty, []⟩ all
  obtain ⟨scanned, asked⟩ := scan_tally compiler ⟨c.entries, .empty, []⟩ once all
  have stays : Sorted (Pass.scan files compiler ⟨c.entries, .empty, []⟩
      (Source.find files base)).1.entries := scan_sorted sorted
  unfold update at done ⊢
  rw [Source.search_canonical_iff.mpr ⟨base, canonical, listed, rfl⟩] at done ⊢
  dsimp only at done ⊢
  rw [finished] at done ⊢
  refine ⟨_, ?_, (sorted_keys_once stays).filter (!(Source.find files base).contains ·), ?_, asked⟩
  · rw [← Except.ok.inj done, Pass.prune, scanned]
    simp [Report.append, Report.empty]
  · intro key
    rw [List.mem_filter, mem_keys_iff, entries]
    by_cases source : key ∈ Source.find files base <;> simp [source]

theorem update_left (canonical : files.canonical root = .ok base)
    (done : (c.update files compiler root).report = .ok report) :
    (∀ v, ∀ key ∈ judged files compiler c.entries (Source.find files base) v,
      v.Says (c.entries.lookup key) ((c.update files compiler root).cache.entries.lookup key)) ∧
    ∀ key ∉ Source.find files base,
      (c.update files compiler root).cache.entries.lookup key = none := by
  obtain ⟨-, available, -, entries⟩ := update_ended canonical done
  constructor
  · intro v key member
    obtain ⟨found, rfl⟩ := mem_judged.mp member
    obtain ⟨hash, readable⟩ := available_hash (available key found)
    rw [entries, if_pos found]
    exact verdict_dealt compiler readable c.entries
  · intro key outside
    rw [entries, if_neg outside]

theorem update_stays (canonical : files.canonical root = .ok base)
    (done : (c.update files compiler root).report = .ok report) (key : String) :
    ((c.update files compiler root).cache.entries.lookup key).isSome ↔
      key ∈ judged files compiler c.entries (Source.find files base) .parsed ∨
        key ∈ judged files compiler c.entries (Source.find files base) .unchanged := by
  obtain ⟨left, other⟩ := update_left canonical done
  constructor
  · intro there
    by_cases source : key ∈ Source.find files base
    · rcases judged_cases compiler c.entries source with here | here | here
      · exact .inl here
      · exact .inr here
      · rw [left .failed key here] at there
        cases there
    · rw [other key source] at there
      cases there
  · rintro (member | member)
    · exact (left .parsed key member).1
    · exact (left .unchanged key member).1

theorem update_removed (sorted : Sorted c.entries) (canonical : files.canonical root = .ok base)
    (once : (Source.find files base).Nodup)
    (done : (c.update files compiler root).report = .ok report) (key : String) :
    key ∈ report.removed ↔ (c.entries.lookup key).isSome ∧
      ¬((c.update files compiler root).cache.entries.lookup key).isSome := by
  obtain ⟨left, other⟩ := update_left canonical done
  obtain ⟨gone, rfl, -, goneKeys, -⟩ := update_tally sorted canonical once done
  rw [Report.append, tally, List.mem_append, List.mem_filter, goneKeys]
  constructor
  · rintro (⟨here, known⟩ | ⟨known, outside⟩)
    · rw [left .failed key here]
      exact ⟨known, Bool.false_ne_true⟩
    · rw [other key outside]
      exact ⟨known, Bool.false_ne_true⟩
  · rintro ⟨known, absent⟩
    by_cases source : key ∈ Source.find files base
    · rcases judged_cases compiler c.entries source with here | here | here
      · exact absurd (left .parsed key here).1 absent
      · exact absurd (left .unchanged key here).1 absent
      · exact .inl ⟨here, known⟩
    · exact .inr ⟨known, source⟩

theorem update_changed (sorted : Sorted c.entries) (canonical : files.canonical root = .ok base)
    (once : (Source.find files base).Nodup)
    (done : (c.update files compiler root).report = .ok report) :
    report.changed = true ↔ (c.update files compiler root).cache.entries ≠ c.entries := by
  constructor
  · intro changed same
    have removed : report.removed = [] := by
      refine List.eq_nil_iff_forall_not_mem.mpr fun key member => ?_
      obtain ⟨known, absent⟩ := (update_removed sorted canonical once done key).mp member
      exact absent (same ▸ known)
    have parsed : report.parsed = [] := by
      refine List.eq_nil_iff_forall_not_mem.mpr fun key member => ?_
      obtain ⟨left, -⟩ := update_left canonical done
      obtain ⟨gone, rfl, -⟩ := update_tally sorted canonical once done
      rw [Report.append, tally, List.append_nil] at member
      exact (left .parsed key member).2 (by rw [same])
    rw [(unchanged_iff report).mpr ⟨parsed, removed⟩] at changed
    cases changed
  · intro differs
    by_contra quiet
    exact differs (congrArg Cache.entries (update_quiet done (by simpa using quiet)))

/-- What the report of an update stands for. -/
structure Account (c : Cache) (sources : List String) (outcome : Outcome) (report : Report) :
    Prop where
  ordered : Path.Ascending sources ∧ Path.Ascending report.parsed ∧
    Path.Ascending report.unchanged ∧ Path.Ascending report.failed
  apart : report.parsed.Disjoint report.unchanged ∧ report.parsed.Disjoint report.failed ∧
    report.unchanged.Disjoint report.failed
  every : ∀ path, path ∈ sources ↔
    path ∈ report.parsed ∨ path ∈ report.unchanged ∨ path ∈ report.failed
  keys : ∀ key, key ∈ outcome.cache.entries.map (·.1) ↔
    key ∈ report.parsed ∨ key ∈ report.unchanged
  once : report.removed.Nodup
  removed : ∀ key, key ∈ report.removed ↔
    key ∈ c.entries.map (·.1) ∧ key ∉ outcome.cache.entries.map (·.1)
  kept : ∀ key ∈ report.unchanged,
    outcome.cache.entries.lookup key = c.entries.lookup key
  changed : report.changed = true ↔ outcome.cache.entries ≠ c.entries
  asked : outcome.asked = sources.filter fun path =>
    (path ∈ report.parsed ∨ path ∈ report.failed) ∧ Path.extension? path ≠ some "scillib"

end Update

def oldEntry (path : String) : Entry := ⟨"old", path, Source.libraryOf "library Old"⟩

def stale : Cache :=
  ⟨"cache", [("/A.scilla", oldEntry "/A.scilla"), ("/Gone.scilla", oldEntry "/Gone.scilla")]⟩

end Cache
end TypedContracts
