import TypedContracts.Proofs.Files.Place
import TypedContracts.Proofs.Result
import TypedContracts.Source.Find

/-!
The sources of a whole tree. A search ends well exactly if every directory on its way can be listed.
It starts at the top directory, and a tree without further names has no other sources than those
found there.
-/
namespace TypedContracts

def Files.Listable (files : Files) (path : String) : Prop :=
  ∃ names, files.list path = .ok names

namespace Source
variable {files : Files} {root base : String} {found : List String}

/-- Every directory that the search comes to can be listed. -/
def Listed (files : Files) (root : String) : Prop :=
  ∀ path ∈ directories files root, files.Listable path

theorem listAll_behind {before : List String} (listable : ∀ path ∈ before, files.Listable path)
    (behind : List String) : listAll files (before ++ behind) = listAll files behind := by
  induction before with
  | nil => rfl
  | cons first before ih =>
    obtain ⟨⟨names, lists⟩, later⟩ := List.forall_mem_cons.mp listable
    rw [List.cons_append, listAll, lists]
    exact ih later

/-- A search gives what is there, or it stops at the first directory that cannot be listed. -/
theorem search_stops (files : Files) (root : String) :
    (Listed files root ∧ search files root = .ok (find files root)) ∨
      ∃ before bad behind fault, directories files root = before ++ bad :: behind ∧
        (∀ path ∈ before, files.Listable path) ∧ files.list bad = .error fault ∧
        search files root = .error fault := by
  unfold search
  rcases Result.all_or_first files.list (directories files root) with
    listed | ⟨before, bad, behind, fault, split, listable, unlistable⟩
  · have done := listAll_behind listed []
    rw [List.append_nil] at done
    rw [done]
    exact .inl ⟨listed, rfl⟩
  · rw [split, listAll_behind listable, listAll, unlistable]
    exact .inr ⟨before, bad, behind, fault, rfl, listable, unlistable, rfl⟩

theorem search_ok_iff : search files root = .ok found ↔
    Listed files root ∧ found = find files root := by
  rcases search_stops files root with
    ⟨listed, done⟩ | ⟨before, bad, behind, fault, split, -, unlistable, stopped⟩
  · simp [listed, done, eq_comm]
  · have unlisted : ¬Listed files root := by
      intro listed
      obtain ⟨names, lists⟩ := listed bad (by simp [split])
      cases unlistable.symm.trans lists
    simp [unlisted, stopped]

theorem search_canonical_iff : files.canonical root >>= search files = .ok found ↔
    ∃ base, files.canonical root = .ok base ∧ Listed files base ∧ found = find files base := by
  rw [Result.bind_ok_iff]
  simp only [search_ok_iff]

theorem spelling_top (files : Files) : spelling? files "/" = some "/" := by
  have segments : Path.segments ("/" ++ "/") = ["", "", ""] := by decide
  have next : entryPath "/" "" = "/" := by decide
  have there : files.exists? "/" = true := by
    rw [Files.exists?, Files.node_top]
    rfl
  have stays : descend files "/" "" = some "/" := by simp [descend, next, there]
  rw [spelling?, segments]
  simp [stays]

theorem below_leaf {path : String} (leaf : files.children path = []) (fuel : Nat) :
    below files fuel path = [] := by
  cases fuel with
  | zero => rfl
  | succ fuel => simp [below, leaf]

theorem depthBound_succ (files : Files) : ∃ fuel, depthBound files = fuel + 1 :=
  Nat.exists_eq_add_of_le' (Nat.mul_pos (Nat.succ_pos _) (Nat.succ_pos _))

theorem find_top (leaves : ∀ name ∈ files.children "/",
      files.children (entryPath "/" name) = []) :
    find files "/" = Path.sorted (((files.children "/").map (entryPath "/")).filter isSource) := by
  obtain ⟨fuel, bound⟩ := depthBound_succ files
  have all : below files (fuel + 1) "/" = (files.children "/").map (entryPath "/") := by
    have each : ∀ name ∈ files.children "/",
        entryPath "/" name :: below files fuel (entryPath "/" name) = [entryPath "/" name] :=
      fun name member => by rw [below_leaf (leaves name member)]
    rw [below, List.map_eq_flatMap]
    exact List.flatMap_congr each
  rw [find, spelling_top, bound]
  dsimp only
  rw [all]

theorem find_alone {name path : String} {names : List String} {bytes : List UInt8}
    (alone : files.root = .directory [(name, .file bytes)])
    (there : files.node path = .ok (names, .file bytes)) (spelt : entryPath "/" name = path)
    (source : isSource path = true) : find files "/" = [path] := by
  have children : files.children "/" = [name] := Files.children_top alone
  have sorted : Path.sorted [path] = [path] := List.mergeSort_singleton _
  rw [find_top (by simp [children, spelt, Files.children_file there]), children]
  simp [spelt, source, sorted]

theorem directoriesBelow_leaf {path : String} (leaf : files.children path = []) (fuel : Nat) :
    directoriesBelow files fuel path = [] := by
  cases fuel with
  | zero => rfl
  | succ fuel => simp [directoriesBelow, leaf]

theorem listed_top (leaves : ∀ name ∈ files.children "/",
      files.children (entryPath "/" name) = [])
    (listable : ∀ name ∈ files.directories "/", files.Listable (entryPath "/" name)) :
    Listed files "/" := by
  obtain ⟨fuel, bound⟩ := depthBound_succ files
  intro path member
  rw [directories, spelling_top, bound] at member
  obtain ⟨name, child, here⟩ := List.mem_flatMap.mp (List.mem_mergeSort.mp member)
  rw [directoriesBelow_leaf (leaves name child), List.append_nil] at here
  split at here
  · rename_i directory
    exact List.mem_singleton.mp here ▸ listable name directory
  · cases here

theorem listed_alone {name path : String} {names : List String} {bytes : List UInt8}
    (alone : files.root = .directory [(name, .file bytes)])
    (there : files.node path = .ok (names, .file bytes)) (spelt : entryPath "/" name = path) :
    Listed files "/" := by
  have children : files.children "/" = [name] := Files.children_top alone
  have directories : files.directories "/" = [] := Files.directories_top alone
  exact listed_top (by simp [children, spelt, Files.children_file there]) (by simp [directories])

end Source
end TypedContracts
