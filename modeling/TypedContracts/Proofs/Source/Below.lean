import TypedContracts.Proofs.Files.Walk
import TypedContracts.Proofs.Source.Find

/-!
What lies below a directory, and the search for it. Names lead on from a directory one by one, each
an entry of the directory before it; the search follows every such row of names once, and its bound
is never met.
-/
namespace TypedContracts

namespace Node
variable {entries : List (String × Node)}

/-- Entries of one directory have names of their own, which can stand in a path. -/
def Orderly (root : Node) : Prop :=
  ∀ names entries, root.lookup? names = some (.directory entries) →
    (entries.map (·.1)).Nodup ∧ ∀ e ∈ entries, Path.PlainName e.1

theorem lookup_child {name : String} {child : Node} (found : entries.lookup name = some child) :
    (name, child) ∈ entries := by
  obtain ⟨before, after, rfl, -⟩ := List.lookup_eq_some_iff.mp found
  simp

theorem orderly_directory (once : (entries.map (·.1)).Nodup)
    (plain : ∀ e ∈ entries, Path.PlainName e.1) (deeper : ∀ e ∈ entries, e.2.Orderly) :
    (directory entries).Orderly := by
  intro names others found
  cases names with
  | nil =>
    cases found
    exact ⟨once, plain⟩
  | cons name names =>
    rw [lookup?] at found
    split at found
    · rename_i child there
      exact deeper _ (lookup_child there) names others found
    · cases found

theorem Orderly.names {tree node : Node} {names : List String} (orderly : tree.Orderly)
    (found : tree.lookup? names = some node) : ∀ name ∈ names, Path.PlainName name := by
  induction names generalizing tree with
  | nil => exact List.forall_mem_nil _
  | cons name names ih =>
    cases tree with
    | file content => cases found
    | link target => cases found
    | directory entries =>
      rw [lookup?] at found
      split at found
      · rename_i child there
        have own := (orderly [] entries rfl).2 _ (lookup_child there)
        have deeper : child.Orderly := by
          intro others further stands
          refine orderly (name :: others) further ?_
          rw [lookup?, there]
          exact stands
        exact List.forall_mem_cons.mpr ⟨own, ih deeper found⟩
      · cases found

theorem orderly_file (content : List UInt8) : (file content).Orderly := by
  intro names others found
  cases names <;> cases found

end Node

namespace Files
variable {files : Files} {path : String}

theorem children_orderly (orderly : files.root.Orderly) (path : String) :
    (files.children path).Nodup ∧ ∀ name ∈ files.children path, Path.PlainName name := by
  unfold children
  split
  · rename_i names entries found
    obtain ⟨once, plain⟩ := orderly names entries (node_place found)
    exact ⟨once, by simpa using plain⟩
  · simp

/-- The steps of a path without those at its end that mean nothing. -/
def way (path : String) : List String :=
  if path = "." then [] else (Path.segments path).filter (· != "")

theorem node_ok_iff {names : List String} {node : Node} : files.node path = .ok (names, node) ↔
    checkPath path = .ok () ∧
      follow files.root false linkLimit (files.origin path) (steps path) =
        .ok ⟨names, some node⟩ := by
  rw [← walk_ok_iff, ← resolve, Files.node]
  split
  · rename_i resolved
    simp [resolved]
  · rename_i resolved
    simp [resolved]
  · rename_i resolved
    simp [resolved]

theorem children_node {name : String} (member : name ∈ files.children path) :
    ∃ names entries, files.node path = .ok (names, .directory entries) ∧
      name ∈ entries.map (·.1) := by
  unfold children at member
  split at member
  · rename_i names entries found
    exact ⟨names, entries, found, member⟩
  · cases member

theorem directories_node {name : String} (member : name ∈ files.directories path) :
    ∃ names entries others, files.node path = .ok (names, .directory entries) ∧
      (name, .directory others) ∈ entries := by
  unfold directories at member
  split at member
  · rename_i names entries found
    obtain ⟨⟨_, child⟩, inside, rfl⟩ := List.mem_map.mp member
    obtain ⟨among, isDirectory⟩ := List.mem_filter.mp inside
    cases child with
    | directory others => exact ⟨names, entries, others, found, among⟩
    | file content => cases isDirectory
    | link target => cases isDirectory
  · cases member

end Files

namespace Source
open Files
variable {files : Files} {base path name : String} {names : List String}

def along (path : String) (names : List String) : String := names.foldl entryPath path

/-- Each name is an entry of the directory that those before it lead to. -/
def Leads (files : Files) : String → List String → Prop
  | _, [] => True
  | path, name :: names => name ∈ files.children path ∧ Leads files (entryPath path name) names

theorem leads_append (path : String) (names others : List String) :
    Leads files path (names ++ others) ↔
      Leads files path names ∧ Leads files (along path names) others := by
  induction names generalizing path with
  | nil => simp [Leads, along]
  | cons name names ih => simp [Leads, along, ih, and_assoc]

theorem leads_plain (orderly : files.root.Orderly) (leads : Leads files path names) :
    ∀ name ∈ names, Path.PlainName name := by
  induction names generalizing path with
  | nil => exact List.forall_mem_nil _
  | cons name names ih =>
    obtain ⟨member, rest⟩ := leads
    exact List.forall_mem_cons.mpr ⟨(children_orderly orderly path).2 name member, ih rest⟩

theorem entryPath_present (present : path ≠ "") (named : name ≠ "") : entryPath path name ≠ "" := by
  unfold entryPath
  split
  · exact named
  · unfold Path.join
    split <;> simp [present]

theorem entryPath_moves (present : path ≠ "") (noSlash : '/' ∉ name.toList)
    (moves : path = "." → name ≠ ".") : entryPath path name ≠ "." := by
  unfold entryPath
  split
  · rename_i here
    exact moves here
  · obtain ⟨above, joined, some, _⟩ := Path.segments_join present noSlash
    have here : Path.segments "." = ["."] := by decide
    intro same
    rw [same, here] at joined
    obtain ⟨first, rest, rfl⟩ := List.exists_cons_of_ne_nil some
    simp at joined

theorem way_entryPath (present : path ≠ "") (named : name ≠ "") (noSlash : '/' ∉ name.toList)
    (moves : path = "." → name ≠ ".") :
    way (entryPath path name) = way path ++ [name] ∧
      steps (entryPath path name) = way path ++ [name] := by
  have elsewhere := entryPath_moves present noSlash moves
  have segments : ∃ above, Path.segments (entryPath path name) = above ++ [name] ∧
      way path = above.filter (· != "") := by
    unfold entryPath way
    split
    · exact ⟨[], Path.segments_plain noSlash, rfl⟩
    · obtain ⟨above, joined, _, whole⟩ := Path.segments_join present noSlash
      rcases whole with ⟨same, _⟩ | ⟨same, _⟩ <;> exact ⟨above, joined, by simp [same]⟩
  obtain ⟨above, whole, before⟩ := segments
  have kept : (above ++ [name]).filter (· != "") = way path ++ [name] := by
    simp [before, named]
  constructor
  · rw [way, if_neg elsewhere, whole, kept]
  · unfold steps
    dsimp only
    rw [whole, List.getLast?_concat, if_neg (by simpa using named), kept]

theorem isAbsolute_entryPath (present : path ≠ "") (noSlash : '/' ∉ name.toList) :
    Path.isAbsolute (entryPath path name) = Path.isAbsolute path := by
  unfold entryPath
  split
  · rename_i here
    subst here
    have away : name.toList.head? ≠ some '/' := fun first => noSlash (List.mem_of_mem_head? first)
    simpa [Path.isAbsolute] using away
  · obtain ⟨c, cs, text⟩ := List.exists_cons_of_ne_nil (mt String.toList_eq_nil_iff.mp present)
    unfold Path.join Path.isAbsolute
    split <;> simp [text]

theorem isAbsolute_along (present : path ≠ "") (plain : ∀ name ∈ names, Path.PlainName name) :
    Path.isAbsolute (along path names) = Path.isAbsolute path := by
  induction names generalizing path with
  | nil => rfl
  | cons name names ih =>
    obtain ⟨first, rest⟩ := List.forall_mem_cons.mp plain
    exact (ih (entryPath_present present first.named) rest).trans
      (isAbsolute_entryPath present first.noSlash)

theorem along_present (present : path ≠ "") (plain : ∀ name ∈ names, Path.PlainName name) :
    along path names ≠ "" := by
  induction names generalizing path with
  | nil => exact present
  | cons name names ih =>
    obtain ⟨first, rest⟩ := List.forall_mem_cons.mp plain
    exact ih (entryPath_present present first.named) rest

theorem along_concat (path : String) (names : List String) (name : String) :
    along path (names ++ [name]) = entryPath (along path names) name := by
  simp [along]

theorem way_along (present : path ≠ "") (plain : ∀ name ∈ names, Path.PlainName name) :
    way (along path names) = way path ++ names := by
  induction names using List.reverseRecOn with
  | nil => simp [along]
  | append_singleton names name ih =>
    obtain ⟨before, last⟩ := List.forall_mem_append.mp plain
    have own := last name List.mem_cons_self
    rw [along_concat, (way_entryPath (along_present present before) own.named own.noSlash
      fun _ => own.notHere).1, ih before, List.append_assoc]

theorem steps_along (present : path ≠ "") (plain : ∀ name ∈ names, Path.PlainName name)
    (some : names ≠ []) : steps (along path names) = way path ++ names := by
  obtain ⟨before, name, rfl⟩ := List.eq_nil_or_concat names |>.resolve_left some
  rw [List.concat_eq_append] at plain ⊢
  obtain ⟨above, last⟩ := List.forall_mem_append.mp plain
  have own := last name List.mem_cons_self
  rw [along_concat, (way_entryPath (along_present present above) own.named own.noSlash
    fun _ => own.notHere).2, way_along present above, List.append_assoc]

/-- No row of names is longer than the search looks. -/
theorem leads_length (orderly : files.root.Orderly) (grounded : files.Grounded) (present : base ≠ "")
    (leads : Leads files base names) : names.length ≤ depthBound files := by
  rcases List.eq_nil_or_concat names with rfl | ⟨above, name, rfl⟩
  · exact Nat.zero_le _
  rw [List.concat_eq_append] at leads ⊢
  obtain ⟨before, member, -⟩ := (leads_append base above [name]).mp leads
  obtain ⟨place, entries, found, -⟩ := children_node member
  obtain ⟨-, led⟩ := node_ok_iff.mp found
  have plain := leads_plain orderly before
  have bound : above.length ≤ linkLimit * (files.root.height + 1) + files.root.height := by
    rcases List.eq_nil_or_concat above with rfl | ⟨_, _, rfl⟩
    · exact Nat.zero_le _
    · rw [steps_along present plain (by simp)] at led
      exact (follow_length (origin_directory grounded _) plain led (by simp)).1
  rw [depthBound, Nat.succ_mul, List.length_append, List.length_singleton]
  omega

/-- The rows of names that the search follows. -/
def trails (files : Files) : Nat → String → List (List String)
  | 0, _ => []
  | fuel + 1, path =>
    (files.children path).flatMap fun name =>
      [name] :: (trails files fuel (entryPath path name)).map (name :: ·)

theorem below_trails (fuel : Nat) (path : String) :
    below files fuel path = (trails files fuel path).map (along path) := by
  induction fuel generalizing path with
  | zero => rfl
  | succ fuel ih =>
    rw [below, trails, List.map_flatMap]
    refine List.flatMap_congr fun name _ => ?_
    rw [ih, List.map_cons, List.map_map]
    rfl

theorem mem_trails (fuel : Nat) (path : String) (names : List String) :
    names ∈ trails files fuel path ↔
      names ≠ [] ∧ names.length ≤ fuel ∧ Leads files path names := by
  induction fuel generalizing path names with
  | zero =>
    constructor
    · simp [trails]
    · rintro ⟨some, short, -⟩
      exact absurd (List.length_eq_zero_iff.mp (Nat.le_zero.mp short)) some
  | succ fuel ih =>
    rw [trails, List.mem_flatMap]
    constructor
    · rintro ⟨name, member, here⟩
      rcases List.mem_cons.mp here with rfl | later
      · exact ⟨by simp, by simp, member, trivial⟩
      · obtain ⟨rest, among, rfl⟩ := List.mem_map.mp later
        obtain ⟨-, short, leads⟩ := (ih _ _).mp among
        exact ⟨by simp, Nat.succ_le_succ short, member, leads⟩
    · rintro ⟨some, short, leads⟩
      obtain ⟨name, rest, rfl⟩ := List.exists_cons_of_ne_nil some
      refine ⟨name, leads.1, ?_⟩
      by_cases last : rest = []
      · simp [last]
      · have among := (ih (entryPath path name) rest).mpr
          ⟨last, Nat.le_of_succ_le_succ short, leads.2⟩
        exact List.mem_cons_of_mem _ (List.mem_map.mpr ⟨rest, among, rfl⟩)

theorem mem_directoriesBelow {fuel : Nat} (member : path ∈ directoriesBelow files fuel base) :
    ∃ names name, Leads files base names ∧ name ∈ files.directories (along base names) ∧
      path = along base (names ++ [name]) := by
  induction fuel generalizing base with
  | zero => cases member
  | succ fuel ih =>
    obtain ⟨name, child, here⟩ := List.mem_flatMap.mp member
    rcases List.mem_append.mp here with own | deeper
    · split at own
      · rename_i directory
        exact ⟨[], name, trivial, directory, List.mem_singleton.mp own⟩
      · cases own
    · obtain ⟨names, last, leads, directory, whole⟩ := ih deeper
      exact ⟨name :: names, last, ⟨child, leads⟩, directory, whole⟩

theorem trails_nodup (orderly : files.root.Orderly) (fuel : Nat) (path : String) :
    (trails files fuel path).Nodup := by
  induction fuel generalizing path with
  | zero => exact List.nodup_nil
  | succ fuel ih =>
    have starts : ∀ {name : String} {names : List String},
        names ∈ [name] :: (trails files fuel (entryPath path name)).map (name :: ·) →
          names.head? = some name := by
      intro name names member
      rcases List.mem_cons.mp member with rfl | later
      · rfl
      · obtain ⟨rest, _, rfl⟩ := List.mem_map.mp later
        rfl
    rw [trails, List.nodup_flatMap]
    constructor
    · intro name _
      refine List.nodup_cons.mpr ⟨?_, (ih _).map (List.cons_injective)⟩
      intro member
      obtain ⟨rest, among, same⟩ := List.mem_map.mp member
      exact ((mem_trails fuel _ _).mp among).1 (List.cons.inj same).2
    · refine List.Pairwise.imp ?_ (children_orderly orderly path).1
      intro name other different names here there
      exact different (Option.some.inj ((starts here).symm.trans (starts there)))

end Source
end TypedContracts
