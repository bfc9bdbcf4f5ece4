import TypedContracts.Proofs.Json.Members
import TypedContracts.Proofs.Result
import TypedContracts.Session.Context

/-!
Entries under the names of their contracts. As long as names differ, the entries read so far stand
unchanged under them; the first name that comes back is a clash of two entries, and then there is
neither a table of names nor a context.
-/
namespace TypedContracts
open Json

namespace Entries

def names (entries : Entries) : List String := entries.map (·.2.contract.name)

def renamed (e : String × Entry) : String × Entry := (e.2.contract.name, e.2)

structure Rekeyed (entries named : Entries) : Prop where
  sorted : Sorted named
  each : named.Perm (entries.map renamed)

/-- Entries in the order of their keys, of which `second` is the first to have the name of an
earlier one. -/
inductive Clash : Entries → Error → Prop where
  | mk {before between after : Entries} {first second : String × Entry}
      (apart : (before ++ first :: between).names.Nodup)
      (same : second.2.contract.name = first.2.contract.name) :
      Clash (before ++ first :: between ++ second :: after)
        (.duplicateContractName second.2.contract.name first.2.path second.2.path)

def entered (named : Entries) (e : String × Entry) : Result Entries :=
  match named.lookup e.2.contract.name with
  | some first => .error (.duplicateContractName e.2.contract.name first.path e.2.path)
  | none => .ok (insertMember e.2.contract.name e.2 named)

theorem byName_eq (entries : Entries) : entries.byName = entries.foldlM entered [] := rfl

variable {entries done rest named : Entries}

theorem names_append (xs ys : Entries) : names (xs ++ ys) = xs.names ++ ys.names :=
  List.map_append

namespace Rekeyed

theorem keys (rekeyed : Rekeyed entries named) : (named.map (·.1)).Perm entries.names := by
  have keys := rekeyed.each.map (·.1)
  rwa [List.map_map] at keys

theorem names_nodup (rekeyed : Rekeyed entries named) : entries.names.Nodup :=
  rekeyed.keys.nodup_iff.mp (sorted_keys_once rekeyed.sorted)

theorem member_iff (rekeyed : Rekeyed entries named) (name : String) (e : Entry) :
    (name, e) ∈ named ↔ e.contract.name = name ∧ ∃ key, (key, e) ∈ entries := by
  rw [rekeyed.each.mem_iff, List.mem_map]
  constructor
  · rintro ⟨⟨key, _⟩, member, same⟩
    cases same
    exact ⟨rfl, key, member⟩
  · rintro ⟨rfl, key, member⟩
    exact ⟨(key, e), member, rfl⟩

theorem unique {other : Entries} (rekeyed : Rekeyed entries named)
    (again : Rekeyed entries other) : named = other :=
  sorted_ext rekeyed.sorted again.sorted fun _ =>
    rekeyed.each.mem_iff.trans again.each.mem_iff.symm

end Rekeyed

theorem insertMember_fresh {key : String} {e : Entry} (fresh : key ∉ named.map (·.1)) :
    (insertMember key e named).Perm ((key, e) :: named) := by
  induction named with
  | nil => exact .refl _
  | cons m named ih =>
    obtain ⟨other, later⟩ : key ≠ m.1 ∧ key ∉ named.map (·.1) := by simpa using fresh
    unfold insertMember
    by_cases before : key < m.1
    · rw [if_pos before]
    · rw [if_neg before, if_neg other]
      exact ((ih later).cons m).trans (.swap _ _ _)

theorem entered_fresh (rekeyed : Rekeyed done named) {e : String × Entry}
    (fresh : e.2.contract.name ∉ done.names) :
    ∃ next, entered named e = .ok next ∧ Rekeyed (done ++ [e]) next := by
  have unused : e.2.contract.name ∉ named.map (·.1) := fun used =>
    fresh (rekeyed.keys.mem_iff.mp used)
  have absent : named.lookup e.2.contract.name = none := by
    rw [← Option.not_isSome_iff_eq_none, ← mem_keys_iff]
    exact unused
  refine ⟨insertMember e.2.contract.name e.2 named, by simp only [entered, absent], ?_⟩
  refine ⟨insertMember_sorted rekeyed.sorted, (insertMember_fresh unused).trans ?_⟩
  rw [List.map_append]
  exact (rekeyed.each.cons _).trans (List.perm_append_singleton _ _).symm

theorem entered_taken (rekeyed : Rekeyed done named) {first e : String × Entry}
    (earlier : first ∈ done) (same : e.2.contract.name = first.2.contract.name) :
    entered named e =
      .error (.duplicateContractName e.2.contract.name first.2.path e.2.path) := by
  have stands : (e.2.contract.name, first.2) ∈ named :=
    (rekeyed.member_iff _ _).mpr ⟨same.symm, first.1, earlier⟩
  simp only [entered, (lookup_iff_member rekeyed.sorted _ _).mpr stands]

theorem run_fresh (rekeyed : Rekeyed done named) (apart : (done ++ rest).names.Nodup) :
    ∃ next, rest.foldlM entered named = .ok next ∧ Rekeyed (done ++ rest) next := by
  induction rest generalizing done named with
  | nil => exact ⟨named, rfl, by simpa using rekeyed⟩
  | cons e rest ih =>
    have whole : done ++ e :: rest = (done ++ [e]) ++ rest := by simp
    have fresh : e.2.contract.name ∉ done.names := by
      rw [names_append] at apart
      exact fun used => (List.nodup_append.mp apart).2.2 _ used _ List.mem_cons_self rfl
    obtain ⟨next, taken, more⟩ := entered_fresh rekeyed fresh
    rw [whole] at apart ⊢
    obtain ⟨last, read, all⟩ := ih more apart
    refine ⟨last, ?_, all⟩
    rw [List.foldlM_cons]
    exact Result.bind_ok_iff.mpr ⟨next, taken, read⟩

theorem byName_fresh (apart : entries.names.Nodup) :
    ∃ named, entries.byName = .ok named ∧ Rekeyed entries named := by
  have nothing : Rekeyed [] [] := ⟨List.Pairwise.nil, .refl _⟩
  exact run_fresh nothing apart

theorem byName_clash {e : Error} (clash : Clash entries e) : entries.byName = .error e := by
  obtain ⟨apart, same⟩ := clash
  obtain ⟨named, read, rekeyed⟩ := byName_fresh apart
  have refused := entered_taken rekeyed (List.mem_append_right _ List.mem_cons_self) same
  rw [byName_eq] at read ⊢
  rw [List.foldlM_append, read]
  change (entered named _ >>= fun next => List.foldlM entered next _) = _
  rw [refused]
  rfl

theorem nodup_or_clash (entries : Entries) :
    entries.names.Nodup ∨ ∃ e, Clash entries e := by
  induction entries using List.reverseRecOn with
  | nil => exact .inl List.nodup_nil
  | append_singleton before last ih =>
    rcases ih with apart | ⟨_, @⟨start, between, after, first, second, apart, same⟩⟩
    · by_cases used : last.2.contract.name ∈ names before
      · obtain ⟨first, member, same⟩ := List.mem_map.mp used
        obtain ⟨start, between, rfl⟩ := List.append_of_mem member
        exact .inr ⟨_, .mk apart same.symm⟩
      · left
        rw [names_append]
        refine List.nodup_append.mpr ⟨apart, List.nodup_singleton _, ?_⟩
        rintro name member _ here rfl
        obtain rfl := List.mem_singleton.mp here
        exact used member
    · right
      rw [List.append_assoc, List.cons_append]
      exact ⟨_, .mk apart same⟩

theorem byName_ok_iff : entries.byName = .ok named ↔ Rekeyed entries named := by
  constructor
  · intro read
    rcases nodup_or_clash entries with apart | ⟨e, clash⟩
    · obtain ⟨other, same, rekeyed⟩ := byName_fresh apart
      cases read.symm.trans same
      exact rekeyed
    · cases read.symm.trans (byName_clash clash)
  · intro rekeyed
    obtain ⟨other, read, again⟩ := byName_fresh rekeyed.names_nodup
    rw [read, again.unique rekeyed]

theorem byName_member (made : entries.byName = .ok named) {name : String} {e : Entry}
    (member : (name, e) ∈ named) : e.contract.name = name ∧ ∃ key, (key, e) ∈ entries :=
  ((byName_ok_iff.mp made).member_iff name e).mp member

theorem byName_error_iff {e : Error} : entries.byName = .error e ↔ Clash entries e := by
  refine ⟨fun failed => ?_, byName_clash⟩
  rcases nodup_or_clash entries with apart | ⟨other, clash⟩
  · obtain ⟨named, read, _⟩ := byName_fresh apart
    cases failed.symm.trans read
  · cases failed.symm.trans (byName_clash clash)
    exact clash

theorem ofEntries_error_iff (setup : Setup) {e : Error} :
    Context.ofEntries setup entries = .error e ↔ entries.byName = .error e := by
  unfold Context.ofEntries
  cases entries.byName <;> simp [bind, Except.bind, pure, Except.pure]

/-- Names that differ lose nothing; otherwise the first clash is told and no context is made. -/
theorem by_name_iff_distinct (entries : Entries) (setup : Setup) :
    ((∃ named, entries.byName = .ok named) ↔ entries.names.Nodup) ∧
    (∀ named, entries.byName = .ok named ↔ Rekeyed entries named) ∧
    (∀ e, entries.byName = .error e ↔ Clash entries e) ∧
    (∀ e, Context.ofEntries setup entries = .error e ↔ Clash entries e) := by
  refine ⟨⟨?_, ?_⟩, fun _ => byName_ok_iff, fun _ => byName_error_iff, fun e => ?_⟩
  · rintro ⟨named, read⟩
    exact (byName_ok_iff.mp read).names_nodup
  · intro apart
    obtain ⟨named, read, _⟩ := byName_fresh apart
    exact ⟨named, read⟩
  · exact (ofEntries_error_iff setup).trans byName_error_iff

/-- Two names come back, and the one that does so first is told, with the first path it had. -/
example :
    let entry (path name : String) : String × Entry := (path, ⟨"", path, ⟨name, none, [], [], []⟩⟩)
    byName [entry "a" "Till", entry "b" "Vault", entry "c" "Vault", entry "d" "Till"] =
      .error (.duplicateContractName "Vault" "b" "c") := by
  decide

end Entries
end TypedContracts
