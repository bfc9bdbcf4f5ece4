import TypedContracts.Proofs.Cache.Blocking
import TypedContracts.Proofs.Cache.Save

/-!
Where entries come from. An entry that an update leaves was there before or was made by this update,
from what its source held; and when an update ends well, every entry has the hash of its source.
-/
namespace TypedContracts
open Json

namespace Cache

structure Made (files : Files) (compiler : Compiler) (e : Entry) : Prop where
  hash : fileHash files e.path = .ok e.hash
  model : Source.model files compiler e.path = .ok e.contract

structure Placed (entries : Entries) : Prop where
  sorted : Sorted entries
  path : ∀ key e, (key, e) ∈ entries → e.path = key

variable {files : Files} {compiler : Compiler} {p : Pass} {path hash key : String} {e : Entry}
  {sources : List String} {c : Cache}

theorem visit_origin (readable : fileHash files path = .ok hash)
    (member : (key, e) ∈ (p.visit files compiler path hash).entries) :
    (key, e) ∈ p.entries ∨ e.path = key ∧ Made files compiler e := by
  unfold Pass.visit at member
  split at member
  · exact .inl member
  · dsimp only at member
    split at member
    · rename_i contract model
      rcases member_of_insert member with here | before
      · cases here
        exact .inr ⟨rfl, readable, model⟩
      · exact .inl before
    · exact .inl (List.mem_filter.mp member).1

theorem scan_origin (member : (key, e) ∈ (p.scan files compiler sources).1.entries) :
    (key, e) ∈ p.entries ∨ e.path = key ∧ Made files compiler e := by
  induction sources generalizing p with
  | nil => exact .inl member
  | cons path sources ih =>
    unfold Pass.scan at member
    split at member
    · exact .inl member
    · rename_i hash readable
      rcases ih member with visited | made
      · exact visit_origin readable visited
      · exact .inr made

theorem update_origin {root : String}
    (member : (key, e) ∈ (c.update files compiler root).cache.entries) :
    (key, e) ∈ c.entries ∨ e.path = key ∧ Made files compiler e := by
  unfold update at member
  split at member
  · exact .inl member
  · dsimp only at member
    split at member
    · exact scan_origin member
    · exact scan_origin (List.mem_filter.mp member).1

theorem update_placed (placed : Placed c.entries) (files : Files) (compiler : Compiler)
    (root : String) : Placed (c.update files compiler root).cache.entries where
  sorted := update_sorted placed.sorted files compiler root
  path := by
    intro key e member
    rcases update_origin member with before | made
    · exact placed.path key e before
    · exact made.1

theorem dealt_hash {known : Option Entry} (readable : fileHash files path = .ok hash)
    (left : dealt files compiler known path = some e) : e.hash = hash := by
  rw [dealt_readable readable] at left
  split at left
  · rename_i same
    rw [left] at same
    exact Option.some.inj same
  · obtain ⟨contract, _, rfl⟩ := Option.map_eq_some_iff.mp left
    rfl

theorem update_current (placed : Placed c.entries) {root : String} {report : Report}
    (done : (c.update files compiler root).report = .ok report)
    (member : (key, e) ∈ (c.update files compiler root).cache.entries) :
    fileHash files e.path = .ok e.hash := by
  have after := update_placed placed files compiler root
  obtain ⟨base, canonical, _⟩ := (update_done_iff compiler root).mp ⟨report, done⟩
  obtain ⟨-, all, -, entries⟩ := update_ended canonical done
  have found := (lookup_iff_member after.sorted key e).mpr member
  rw [entries] at found
  split at found
  · rename_i source
    obtain ⟨hash, readable⟩ := available_hash (all key source)
    rw [after.path key e member, readable, dealt_hash readable found]
  · cases found

end Cache
end TypedContracts
