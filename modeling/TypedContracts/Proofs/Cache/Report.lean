import TypedContracts.Cache.Store
import TypedContracts.Proofs.Json.Members

/-!
What an update tells of itself. A report without a change is that of an update that left the
entries as they were, and a source with the hash of its entry is not given to the compiler.
-/
namespace TypedContracts.Cache
open Json
variable {files : Files} {compiler : Compiler} {p : Pass} {path hash : String}
  {sources : List String} {c : Cache} {root : String} {e : Entry}

theorem lookup_removeEntry (key : String) (entries : Entries) (k : String) :
    (removeEntry key entries).lookup k = if k = key then none else entries.lookup k :=
  lookup_without entries key k

theorem removeEntry_absent {key : String} {entries : Entries} (absent : entries.lookup key = none) :
    removeEntry key entries = entries := by
  refine List.filter_eq_self.mpr fun m member => ?_
  have other := List.lookup_eq_none_iff.mp absent m member
  exact bne_iff_ne.mpr (Ne.symm (by simpa using other))

theorem unchanged_iff (r : Report) : r.changed = false ↔ r.parsed = [] ∧ r.removed = [] := by
  simp [Report.changed]

theorem visit_quiet (quiet : (p.visit files compiler path hash).report.changed = false) :
    p.report.changed = false ∧ (p.visit files compiler path hash).entries = p.entries := by
  unfold Pass.visit at quiet ⊢
  split at quiet
  · rename_i same
    rw [if_pos same]
    exact ⟨quiet, rfl⟩
  · rename_i differs
    rw [if_neg differs]
    dsimp only at quiet ⊢
    split at quiet
    · have parsed := ((unchanged_iff _).mp quiet).1
      simp [Pass.accept] at parsed
    · obtain ⟨parsed, removed⟩ := (unchanged_iff _).mp quiet
      obtain ⟨before, here⟩ := List.append_eq_nil_iff.mp removed
      refine ⟨(unchanged_iff _).mpr ⟨parsed, before⟩, removeEntry_absent ?_⟩
      cases known : p.entries.lookup path with
      | none => rfl
      | some e => simp [known] at here

theorem scan_quiet (quiet : (p.scan files compiler sources).1.report.changed = false) :
    p.report.changed = false ∧ (p.scan files compiler sources).1.entries = p.entries := by
  induction sources generalizing p with
  | nil => exact ⟨quiet, rfl⟩
  | cons path sources ih =>
    unfold Pass.scan at quiet ⊢
    split at quiet
    · exact ⟨quiet, rfl⟩
    · obtain ⟨visited, rest⟩ := ih quiet
      obtain ⟨before, first⟩ := visit_quiet visited
      exact ⟨before, rest.trans first⟩

theorem prune_quiet {seen : List String} (quiet : (p.prune seen).report.changed = false) :
    p.report.changed = false ∧ (p.prune seen).entries = p.entries := by
  obtain ⟨parsed, removed⟩ := (unchanged_iff _).mp quiet
  obtain ⟨before, gone⟩ := List.append_eq_nil_iff.mp removed
  refine ⟨(unchanged_iff _).mpr ⟨parsed, before⟩, List.filter_eq_self.mpr fun m member => ?_⟩
  have kept := List.filter_eq_nil_iff.mp gone m.1 (List.mem_map_of_mem member)
  simpa using kept

theorem update_quiet {report : Report} (done : (c.update files compiler root).report = .ok report)
    (quiet : report.changed = false) : (c.update files compiler root).cache = c := by
  unfold update at done ⊢
  split at done
  · cases done
  · dsimp only at done ⊢
    split at done
    · cases done
    · cases done
      obtain ⟨scanned, pruned⟩ := prune_quiet quiet
      obtain ⟨_, same⟩ := scan_quiet scanned
      rw [pruned, same]

theorem asked_only {path other : String} (member : other ∈ Source.asked files path) :
    other = path := by
  unfold Source.asked at member
  split at member
  · exact List.mem_singleton.mp member
  · cases member

theorem visit_other {other : String} (different : other ≠ path) :
    (p.visit files compiler path hash).entries.lookup other = p.entries.lookup other := by
  unfold Pass.visit
  split
  · rfl
  · dsimp only
    split
    · exact (lookup_insertMember _ _ _ _).trans (if_neg different)
    · exact (lookup_removeEntry _ _ _).trans (if_neg different)

theorem visit_known (known : p.entries.lookup path = some e) (current : hash = e.hash) :
    p.visit files compiler path hash = p.keep path := by
  rw [Pass.visit, if_pos (by rw [known, current]; rfl)]

theorem visit_unasked {other : String} (different : other ≠ path) (before : other ∉ p.asked) :
    other ∉ (p.visit files compiler path hash).asked := by
  unfold Pass.visit
  split
  · exact before
  · have asked : other ∉ p.asked ++ Source.asked files path := by
      intro member
      rcases List.mem_append.mp member with already | now
      · exact before already
      · exact different (asked_only now)
    dsimp only
    split <;> exact asked

theorem scan_unasked (known : p.entries.lookup path = some e)
    (current : fileHash files path = .ok e.hash) (before : path ∉ p.asked) :
    path ∉ (p.scan files compiler sources).1.asked := by
  induction sources generalizing p with
  | nil => exact before
  | cons first sources ih =>
    unfold Pass.scan
    split
    · exact before
    · rename_i hash readable
      by_cases here : path = first
      · subst here
        cases current.symm.trans readable
        rw [visit_known known rfl]
        exact ih known before
      · exact ih ((visit_other here).trans known) (visit_unasked here before)

theorem update_unasked (known : c.entries.lookup path = some e)
    (current : fileHash files path = .ok e.hash) :
    path ∉ (c.update files compiler root).asked := by
  unfold update
  split
  · exact List.not_mem_nil
  · rename_i found _
    have scanned : path ∉
        (Pass.scan files compiler ⟨c.entries, .empty, []⟩ found).1.asked :=
      scan_unasked known current List.not_mem_nil
    dsimp only
    split <;> exact scanned

end TypedContracts.Cache
