import TypedContracts.Proofs.Files.Place
import TypedContracts.Proofs.Json.Members

/-!
Reading what was written. A node that is put where no directory is leaves everything else in its
place, so a path that a file was written to leads to that file.
-/
namespace TypedContracts.Node
open Json

inductive Alike : Node → Node → Prop where
  | same (node : Node) : Alike node node
  | directories (entries others : List (String × Node)) :
      Alike (.directory entries) (.directory others)

def IsDirectoryAt (root : Node) (names : List String) : Prop :=
  ∃ entries, root.lookup? names = some (.directory entries)

theorem lookup_append (root : Node) (names rest : List String) :
    root.lookup? (names ++ rest) = root.lookup? names >>= fun node => node.lookup? rest := by
  induction names generalizing root with
  | nil => rfl
  | cons name names ih =>
    cases root with
    | directory entries =>
      simp only [List.cons_append, lookup?]
      cases entries.lookup name with
      | none => rfl
      | some child => exact ih child
    | file content => rfl
    | link target => rfl

theorem directory_above {root node : Node} (names : List String) {rest : List String}
    (below : rest ≠ []) (there : root.lookup? (names ++ rest) = some node) :
    IsDirectoryAt root names := by
  rw [lookup_append] at there
  obtain ⟨above, found, there⟩ := Option.bind_eq_some_iff.mp there
  obtain ⟨name, rest, rfl⟩ := List.exists_cons_of_ne_nil below
  cases above with
  | directory entries => exact ⟨entries, found⟩
  | file content => cases there
  | link target => cases there

theorem directory_dropLast {root : Node} {names : List String} (there : IsDirectoryAt root names) :
    IsDirectoryAt root names.dropLast := by
  rcases List.eq_nil_or_concat names with rfl | ⟨above, name, rfl⟩
  · exact there
  · obtain ⟨entries, found⟩ := there
    rw [List.concat_eq_append] at found ⊢
    rw [List.dropLast_concat]
    exact directory_above above (by simp) found

theorem put_below (value : Node) {name : String} (names : List String)
    {entries : List (String × Node)} {child : Node} (found : entries.lookup name = some child) :
    put (some value) (name :: names) (.directory entries) =
      .directory (insertMember name (put (some value) names child) entries) := by
  cases names with
  | nil => rfl
  | cons next names => simp [put, found, setEntry]

theorem put_vacant (value : Node) {name : String} (names : List String)
    {entries : List (String × Node)} (vacant : entries.lookup name = none) :
    put (some value) (name :: names) (.directory entries) =
      .directory (if names = [] then insertMember name value entries else entries) := by
  cases names with
  | nil => rfl
  | cons next names => simp [put, vacant]

theorem put_directory (value : Node) (name : String) (names : List String)
    (entries : List (String × Node)) :
    ∃ changed, put (some value) (name :: names) (.directory entries) = .directory changed := by
  cases found : entries.lookup name with
  | none => exact ⟨_, put_vacant value names found⟩
  | some child => exact ⟨_, put_below value names found⟩

theorem lookup_put_beside (value : Node) {name first : String} (different : first ≠ name)
    (names others : List String) (entries : List (String × Node)) :
    (put (some value) (name :: names) (.directory entries)).lookup? (first :: others) =
      (Node.directory entries).lookup? (first :: others) := by
  cases found : entries.lookup name with
  | none =>
    rw [put_vacant value names found]
    split <;> simp only [lookup?, lookup_insertMember, if_neg different]
  | some child =>
    rw [put_below value names found]
    simp only [lookup?, lookup_insertMember, if_neg different]

theorem lookup_put {root node : Node} {names : List String} (name : String)
    (above : IsDirectoryAt root names) :
    (root.put (some node) (names ++ [name])).lookup? (names ++ [name]) = some node := by
  obtain ⟨entries, above⟩ := above
  induction names generalizing root with
  | nil =>
    cases above
    simp [put, setEntry, lookup?, lookup_insertMember]
  | cons first names ih =>
    cases root with
    | file content => cases above
    | link target => cases above
    | directory entries =>
      simp only [lookup?] at above
      split at above
      · rename_i child found
        rw [List.cons_append, put_below node _ found]
        simp only [lookup?, lookup_insertMember, if_true]
        exact ih above
      · cases above

theorem lookup_put_other (value : Node) {root node : Node} {names others : List String}
    (replaced : ¬IsDirectoryAt root names) (different : others ≠ names)
    (there : root.lookup? others = some node) :
    ∃ other, (root.put (some value) names).lookup? others = some other ∧ Alike node other := by
  induction names generalizing root others with
  | nil =>
    obtain ⟨name, rest, rfl⟩ := List.exists_cons_of_ne_nil different
    exact absurd (directory_above [] (List.cons_ne_nil name rest) there) replaced
  | cons name names ih =>
    cases root with
    | file content => cases names <;> exact ⟨node, there, .same node⟩
    | link target => cases names <;> exact ⟨node, there, .same node⟩
    | directory entries =>
      cases others with
      | nil =>
        cases there
        obtain ⟨changed, eq⟩ := put_directory value name names entries
        exact ⟨_, congrArg (lookup? []) eq, .directories _ _⟩
      | cons first others =>
        by_cases same : first = name
        · subst same
          simp only [lookup?] at there
          split at there
          · rename_i child found
            rw [put_below value names found]
            simp only [lookup?, lookup_insertMember, if_true]
            refine ih (fun above => replaced ?_) (fun eq => different (by rw [eq])) there
            simpa only [IsDirectoryAt, lookup?, found] using above
          · cases there
        · rw [lookup_put_beside value same]
          exact ⟨node, there, .same node⟩

theorem directory_put (value : Node) {root : Node} {names others : List String}
    (replaced : ¬IsDirectoryAt root names) (there : IsDirectoryAt root others) :
    IsDirectoryAt (root.put (some value) names) others := by
  have different : others ≠ names := by
    rintro rfl
    exact replaced there
  obtain ⟨entries, found⟩ := there
  obtain ⟨_, stands, alike⟩ := lookup_put_other value replaced different found
  cases alike with
  | same => exact ⟨entries, stands⟩
  | directories _ others => exact ⟨others, stands⟩

theorem link_put (value : Node) {root : Node} {names others : List String} {target : String}
    (replaced : ¬IsDirectoryAt root names) (different : others ≠ names)
    (there : root.lookup? others = some (.link target)) :
    (root.put (some value) names).lookup? others = some (.link target) := by
  obtain ⟨_, stands, alike⟩ := lookup_put_other value replaced different there
  cases alike
  exact stands

theorem directory_root {root : Node} {names : List String} (there : IsDirectoryAt root names) :
    IsDirectoryAt root [] := by
  cases names with
  | nil => exact there
  | cons name names =>
    obtain ⟨entries, found⟩ := there
    exact directory_above [] (List.cons_ne_nil name names) found

end TypedContracts.Node

namespace TypedContracts.Files
open Node
variable {root : Node} {making : Bool} {links : Nat} {here rest : List String} {place : Place}

theorem origin_directory (there : IsDirectoryAt root here) (absolute : Bool) :
    IsDirectoryAt root (if absolute then [] else here) := by
  split
  · exact directory_root there
  · exact there

theorem follow_no_link (there : IsDirectoryAt root here)
    (led : follow root making links here rest = .ok place) (target : String) :
    place.node ≠ some (.link target) := by
  fun_induction follow root making links here rest
  case case1 =>
    obtain ⟨entries, found⟩ := there
    cases led
    simp [found]
  case case2 ih | case3 ih => exact ih there led
  case case4 ih => exact ih (directory_dropLast there) led
  case case5 | case6 | case8 | case11 | case12 => cases led
  case case7 | case10 =>
    cases led
    simp
  case case9 found ih => exact ih ⟨_, found⟩ led
  case case13 ih => exact ih (origin_directory there _) led

theorem follow_entry {name : String} (plain : name ≠ "" ∧ name ≠ "." ∧ name ≠ "..")
    (short : ¬nameLimit < name.utf8ByteSize)
    (noLink : ∀ target, root.lookup? (here ++ [name]) ≠ some (.link target)) :
    follow root false links here [name] =
      .ok ⟨here ++ [name], root.lookup? (here ++ [name])⟩ := by
  obtain ⟨named, notHere, notAbove⟩ := plain
  rw [follow, if_neg (by simp), if_neg short]
  · cases found : root.lookup? (here ++ [name]) with
    | none => rfl
    | some node =>
      cases node with
      | file content => rfl
      | directory entries =>
        dsimp only
        rw [follow, found]
      | link target => exact absurd found (noLink target)
  exacts [named, notHere, notAbove]

theorem follow_file {name : String} {content : List UInt8}
    (plain : name ≠ "" ∧ name ≠ "." ∧ name ≠ "..") (short : ¬nameLimit < name.utf8ByteSize)
    (found : root.lookup? (here ++ [name]) = some (.file content)) :
    follow root false links here [name] = .ok ⟨here ++ [name], some (.file content)⟩ := by
  rw [follow_entry plain short (by simp [found]), found]

/-- A file that is put where a path leads is where the path leads. -/
theorem follow_put (there : IsDirectoryAt root here)
    (led : follow root making links here rest = .ok place)
    (replaced : ¬IsDirectoryAt root place.names) (content : List UInt8) :
    follow (root.put (some (.file content)) place.names) false links here rest =
      .ok ⟨place.names, some (.file content)⟩ := by
  have behind := follow_place _ _ _ _ _ led
  have noLink := follow_no_link there led
  -- All names before the last lead to directories and links. What was replaced is neither, so each
  -- of them stands where it stood.
  fun_induction follow root making links here rest
  case case1 =>
    cases led
    exact absurd there replaced
  case case2 ih | case3 ih =>
    rw [follow]
    exact ih there led
  case case4 ih =>
    rw [follow]
    exact ih (directory_dropLast there) led
  case case5 | case6 | case8 | case11 | case12 => cases led
  case case7 name rest named notHere notAbove _ short _ last |
      case10 name rest named notHere notAbove _ short _ _ last =>
    obtain rfl := List.isEmpty_iff.mp last
    cases led
    exact follow_file ⟨named, notHere, notAbove⟩ short (lookup_put name there)
  case case9 links here name rest named notHere notAbove _ short entries found ih =>
    obtain ⟨others, stands⟩ := directory_put (.file content) replaced ⟨entries, found⟩
    rw [follow, if_neg (by simp), if_neg short, stands]
    exacts [ih ⟨entries, found⟩ led, named, notHere, notAbove]
  case case13 here name rest named notHere notAbove _ short target found left ih =>
    have different : here ++ [name] ≠ place.names := by
      intro same
      rw [← same] at behind
      exact noLink target (behind.trans found)
    have stands := link_put (.file content) replaced different found
    rw [follow, if_neg (by simp), if_neg short, stands]
    exacts [ih (origin_directory there _) led, named, notHere, notAbove]

/-- The directory that relative paths start from is there. -/
def Grounded (files : Files) : Prop := IsDirectoryAt files.root files.current

variable {files written made : Files} {path : String}

theorem grounded_put {names : List String} {value : Node} (grounded : files.Grounded)
    (replaced : ¬IsDirectoryAt files.root names) : (files.put names (some value)).Grounded :=
  directory_put value replaced grounded

theorem walk_ok_iff : files.walk making path = .ok place ↔
    checkPath path = .ok () ∧
      follow files.root making linkLimit (files.origin path) (steps path) = .ok place := by
  unfold walk
  cases checkPath path <;> simp [bind, Except.bind]

section
variable {name : String} (checked : checkPath path = .ok ()) (origin : files.origin path = [])
  (steps : steps path = [name]) (plain : name ≠ "" ∧ name ≠ "." ∧ name ≠ "..")
  (short : ¬nameLimit < name.utf8ByteSize)
include checked origin steps plain short

theorem resolve_name (noLink : ∀ target, files.root.lookup? [name] ≠ some (.link target)) :
    files.resolve path = .ok ⟨[name], files.root.lookup? [name]⟩ := by
  refine walk_ok_iff.mpr ⟨checked, ?_⟩
  rw [origin, steps]
  exact follow_entry plain short noLink

theorem node_file {content : List UInt8}
    (found : files.root.lookup? [name] = some (.file content)) :
    files.node path = .ok ([name], .file content) := by
  rw [node, resolve_name checked origin steps plain short (by simp [found]), found]

theorem node_directory {entries : List (String × Node)}
    (found : files.root.lookup? [name] = some (.directory entries)) :
    files.node path = .ok ([name], .directory entries) := by
  rw [node, resolve_name checked origin steps plain short (by simp [found]), found]

theorem node_missing (nothing : files.root.lookup? [name] = none) :
    files.node path = .error .notFound := by
  rw [node, resolve_name checked origin steps plain short (by simp [nothing]), nothing]

end

theorem write_read (grounded : files.Grounded) {content : List UInt8}
    (wrote : files.write path content = .ok written) :
    written.Grounded ∧ written.exists? path = true ∧ written.readBytes path = .ok content := by
  unfold write resolveNew at wrote
  split at wrote
  · cases wrote
  · rename_i names node notDirectory led
    cases wrote
    obtain ⟨checked, led⟩ := walk_ok_iff.mp led
    have behind := follow_place _ _ _ _ _ led
    have replaced : ¬IsDirectoryAt files.root names := by
      rintro ⟨entries, found⟩
      exact notDirectory entries (behind.trans found)
    have there : IsDirectoryAt files.root (files.origin path) := origin_directory grounded _
    have again := follow_put there led replaced content
    have resolved : (files.put names (some (.file content))).resolve path =
        .ok ⟨names, some (.file content)⟩ := walk_ok_iff.mpr ⟨checked, again⟩
    refine ⟨grounded_put grounded replaced, ?_, ?_⟩
    · simp [exists?, Files.node, resolved, Except.toBool]
    · simp [readBytes, Files.content, Files.node, resolved, Except.mapError]
  · cases wrote

theorem entry_place (led : files.entry path = .ok (some place)) :
    place.node = files.root.lookup? place.names := by
  simp only [entry, bind, Except.bind, pure, Except.pure] at led
  split at led
  · cases led
  split at led
  · cases led
  split at led
  · cases led
  · cases led
  · cases led
  · split at led
    · cases led
    · cases led
      rfl

theorem makeDirectory_grounded (grounded : files.Grounded)
    (done : files.makeDirectory path = .ok made) : made.Grounded := by
  unfold makeDirectory at done
  split at done
  · rename_i names vacant
    have behind := entry_place vacant
    cases done
    refine grounded_put grounded ?_
    rintro ⟨entries, found⟩
    exact nomatch behind.trans found
  · cases done
  · cases done

theorem makeDirectories_grounded (grounded : files.Grounded) (path : String) (fuel : Nat) :
    (files.makeDirectories path fuel).1.Grounded := by
  induction fuel generalizing path with
  | zero => exact grounded
  | succ fuel ih =>
    unfold makeDirectories
    split
    · exact grounded
    split
    · exact makeDirectory_grounded grounded ‹_›
    split
    · split
      · exact grounded
      · rename_i parent _
        have above := ih parent
        split
        · rename_i failed
          rwa [failed] at above
        · rename_i done
          rw [done] at above
          split
          · exact makeDirectory_grounded above ‹_›
          · split <;> exact above
    · split <;> exact grounded

theorem ensureDirectory_grounded (grounded : files.Grounded) (path : String) :
    (files.ensureDirectory path).1.Grounded :=
  makeDirectories_grounded grounded path (path.length + 1)

end TypedContracts.Files
