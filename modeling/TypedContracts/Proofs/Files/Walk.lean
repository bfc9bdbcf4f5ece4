import TypedContracts.Proofs.Files.Path
import TypedContracts.Proofs.Files.Write

/-!
Walking along a path step by step. What follows some steps is walked from the directory that these
lead to, so a path leads wherever one leads that takes the same steps.
-/
namespace TypedContracts.Files
open Node
variable {root : Node} {links : Nat} {here rest : List String} {place : Place}

theorem follow_name {name : String} (plain : name ≠ "" ∧ name ≠ "." ∧ name ≠ "..")
    (short : ¬nameLimit < name.utf8ByteSize) {entries : List (String × Node)}
    (found : root.lookup? (here ++ [name]) = some (.directory entries)) :
    follow root false links here (name :: rest) =
      follow root false links (here ++ [name]) rest := by
  obtain ⟨named, notHere, notAbove⟩ := plain
  rw [follow, if_neg (by simp), if_neg short, found]
  exacts [named, notHere, notAbove]

theorem follow_link {name target : String} (plain : name ≠ "" ∧ name ≠ "." ∧ name ≠ "..")
    (short : ¬nameLimit < name.utf8ByteSize)
    (found : root.lookup? (here ++ [name]) = some (.link target)) :
    follow root false (links + 1) here (name :: rest) =
      follow root false links (if Path.isAbsolute target then [] else here)
        (steps target ++ rest) := by
  obtain ⟨named, notHere, notAbove⟩ := plain
  rw [follow, if_neg (by simp), if_neg short, found]
  exacts [named, notHere, notAbove]

/-- Steps that more steps follow lead to a directory, from which those are followed. -/
theorem follow_resume {xs ys : List String} (there : IsDirectoryAt root here) (more : ys ≠ [])
    (led : follow root false links here (xs ++ ys) = .ok place) :
    ∃ left above, IsDirectoryAt root above ∧
      ∀ zs, follow root false links here (xs ++ zs) = follow root false left above zs := by
  generalize whole : xs ++ ys = steps at led
  fun_induction follow root false links here steps generalizing xs
  case case1 => simp [more] at whole
  all_goals
    rcases xs with _ | ⟨x, xs⟩
    · exact ⟨_, _, there, fun _ => rfl⟩
    obtain ⟨rfl, rfl⟩ := List.cons.inj whole
  case case2 ih =>
    obtain ⟨left, above, found, same⟩ := ih there rfl led
    exact ⟨left, above, found, fun zs => by rw [← same, List.cons_append, follow]⟩
  case case3 ih =>
    obtain ⟨left, above, found, same⟩ := ih there rfl led
    exact ⟨left, above, found, fun zs => by rw [← same, List.cons_append, follow]⟩
  case case4 ih =>
    obtain ⟨left, above, found, same⟩ := ih (directory_dropLast there) rfl led
    exact ⟨left, above, found, fun zs => by rw [← same, List.cons_append, follow]⟩
  case case5 | case6 | case8 | case11 | case12 => cases led
  case case7 last => simp [more] at last
  case case10 last => simp [more] at last
  case case9 entries named notHere notAbove short found _ ih =>
    obtain ⟨left, above, directory, same⟩ := ih ⟨entries, found⟩ rfl led
    refine ⟨left, above, directory, fun zs => ?_⟩
    rw [← same, List.cons_append, follow_name ⟨named, notHere, notAbove⟩ short found]
  case case13 target left named notHere notAbove short found _ ih =>
    obtain ⟨left, above, directory, same⟩ := ih (origin_directory there _) (List.append_assoc ..) led
    refine ⟨left, above, directory, fun zs => ?_⟩
    rw [← same, List.cons_append, follow_link ⟨named, notHere, notAbove⟩ short found,
      List.append_assoc]
    rfl

def meant (step : String) : Bool := step != "" && step != "."

theorem follow_skip {idle : List String} (skipped : ∀ step ∈ idle, meant step = false)
    (steps : List String) :
    follow root false links here (idle ++ steps) = follow root false links here steps := by
  induction idle with
  | nil => rfl
  | cons step idle ih =>
    obtain ⟨first, others⟩ := List.forall_mem_cons.mp skipped
    rw [List.cons_append, ← ih others]
    by_cases empty : step = ""
    · rw [empty, follow]
    · obtain rfl : step = "." := by simpa [meant, empty] using first
      rw [follow]

/-- Rows of steps that differ only in what means nothing lead to the same directory. -/
theorem follow_idle {xs ys : List String} (led : follow root false links here xs = .ok place)
    (directory : IsDirectoryAt root place.names) (same : ys.filter meant = xs.filter meant) :
    follow root false links here ys = .ok place := by
  obtain ⟨entries, found⟩ := directory
  fun_induction follow root false links here xs generalizing ys
  case case1 =>
    have skipped : ∀ step ∈ ys, meant step = false := by simpa using same
    rw [← List.append_nil ys, follow_skip skipped, follow]
    exact led
  case case2 ih | case3 ih => exact ih led (by simpa [meant] using same)
  case case4 ih =>
    obtain ⟨idle, rest, rfl, skipped, -, alike⟩ :=
      List.filter_eq_cons_iff.mp (same.trans (List.filter_cons_of_pos (by decide)))
    rw [follow_skip (by simpa using skipped), follow]
    exact ih led alike
  case case5 | case6 | case8 | case11 | case12 => cases led
  case case7 absent _ =>
    cases led
    rw [found] at absent
    cases absent
  case case10 content there _ =>
    cases led
    rw [found] at there
    cases there
  case case9 name rest named notHere notAbove _ short _ there ih =>
    have counts : meant name = true := by simpa [meant] using ⟨named, notHere⟩
    obtain ⟨idle, rest, rfl, skipped, -, alike⟩ :=
      List.filter_eq_cons_iff.mp (same.trans (List.filter_cons_of_pos counts))
    rw [follow_skip (by simpa using skipped), follow_name ⟨named, notHere, notAbove⟩ short there]
    exact ih led alike
  case case13 name rest named notHere notAbove _ short target there left ih =>
    have counts : meant name = true := by simpa [meant] using ⟨named, notHere⟩
    obtain ⟨idle, rest, rfl, skipped, -, alike⟩ :=
      List.filter_eq_cons_iff.mp (same.trans (List.filter_cons_of_pos counts))
    rw [follow_skip (by simpa using skipped), follow_link ⟨named, notHere, notAbove⟩ short there]
    refine ih led ?_
    rw [List.filter_append, List.filter_append, alike]

theorem follow_prefix {xs ys : List String} (there : IsDirectoryAt root here)
    (led : follow root false links here (xs ++ ys) = .ok place)
    (directory : IsDirectoryAt root place.names) :
    ∃ above, IsDirectoryAt root above ∧
      follow root false links here xs = .ok ⟨above, root.lookup? above⟩ := by
  have on : follow root false links here (xs ++ (ys ++ [""])) = .ok place :=
    follow_idle led directory (by simp [meant])
  obtain ⟨left, above, found, same⟩ := follow_resume there (by simp) on
  refine ⟨above, found, ?_⟩
  have here := same []
  rwa [List.append_nil, follow] at here

theorem height_entry {entries : List (String × Node)} {name : String} {child : Node}
    (found : entries.lookup name = some child) : child.height ≤ heights entries := by
  induction entries with
  | nil => simp at found
  | cons e entries ih =>
    obtain ⟨key, value⟩ := e
    rw [heights]
    rw [Json.lookup_cons_if] at found
    split at found
    · cases found
      exact Nat.le_max_left _ _
    · exact Nat.le_trans (ih found) (Nat.le_max_right _ _)

theorem height_lookup {node : Node} {names : List String} (found : root.lookup? names = some node) :
    names.length + node.height ≤ root.height := by
  induction names generalizing root with
  | nil =>
    cases found
    simp
  | cons name names ih =>
    cases root with
    | file content => cases found
    | link target => cases found
    | directory entries =>
      simp only [lookup?] at found
      split at found
      · rename_i child there
        have deeper := ih found
        have entry := height_entry there
        simp only [List.length_cons, Node.height]
        omega
      · cases found

theorem directory_depth (there : IsDirectoryAt root here) : here.length ≤ root.height := by
  obtain ⟨entries, found⟩ := there
  exact Nat.le_trans (Nat.le_add_right _ _) (height_lookup found)

/-- Names at the end of a path lead deeper one by one, save for the links among them. Each of these
may start again at the top. -/
theorem follow_length {xs names : List String} (there : IsDirectoryAt root here)
    (plain : ∀ name ∈ names, Path.PlainName name)
    (led : follow root false links here (xs ++ names) = .ok place) (reached : place.node ≠ none) :
    names.length ≤ links * (root.height + 1) + root.height ∧
      (xs = [] → names.length + here.length ≤ links * (root.height + 1) + root.height) := by
  generalize whole : xs ++ names = steps at led
  fun_induction follow root false links here steps generalizing xs names
  case case1 =>
    obtain ⟨rfl, rfl⟩ := List.append_eq_nil_iff.mp whole
    have depth := directory_depth there
    exact ⟨Nat.zero_le _, fun _ => by simp only [List.length_nil]; omega⟩
  case case5 | case6 | case8 | case11 | case12 => cases led
  case case7 =>
    cases led
    exact absurd rfl reached
  case case2 ih =>
    rcases xs with _ | ⟨x, xs⟩
    · obtain rfl := whole
      exact absurd rfl (plain _ List.mem_cons_self).named
    · obtain ⟨rfl, rfl⟩ := List.cons.inj whole
      exact ⟨(ih there plain rfl led).1, by simp⟩
  case case3 ih =>
    rcases xs with _ | ⟨x, xs⟩
    · obtain rfl := whole
      exact absurd rfl (plain _ List.mem_cons_self).notHere
    · obtain ⟨rfl, rfl⟩ := List.cons.inj whole
      exact ⟨(ih there plain rfl led).1, by simp⟩
  case case4 ih =>
    rcases xs with _ | ⟨x, xs⟩
    · obtain rfl := whole
      exact absurd rfl (plain _ List.mem_cons_self).notAbove
    · obtain ⟨rfl, rfl⟩ := List.cons.inj whole
      exact ⟨(ih (directory_dropLast there) plain rfl led).1, by simp⟩
  -- A name that is used up makes the place one name longer, and no place is deeper than the tree.
  case case9 name rest _ _ _ _ _ entries found ih =>
    have directory : IsDirectoryAt root (_ ++ [name]) := ⟨entries, found⟩
    rcases xs with _ | ⟨x, xs⟩
    · obtain rfl := whole
      have later := (ih directory (List.forall_mem_cons.mp plain).2 rfl led).2 rfl
      simp only [List.length_append, List.length_cons, List.length_nil] at later ⊢
      omega
    · obtain ⟨rfl, rfl⟩ := List.cons.inj whole
      exact ⟨(ih directory plain rfl led).1, by simp⟩
  case case10 name rest _ _ _ _ _ content found last =>
    obtain rfl := List.isEmpty_iff.mp last
    have depth := height_lookup found
    have one := congrArg List.length whole
    simp only [List.length_append, List.length_cons, List.length_nil] at depth one
    exact ⟨by omega, fun _ => by omega⟩
  -- A link may start again at the top; it costs one of the links that are left.
  case case13 here name rest _ _ _ _ _ target found left ih =>
    have depth := directory_depth there
    have next := origin_directory there (Path.isAbsolute target)
    rw [Nat.succ_mul]
    rcases xs with _ | ⟨x, xs⟩
    · obtain rfl := whole
      have later := (ih next (List.forall_mem_cons.mp plain).2 rfl led).1
      simp only [List.length_cons]
      exact ⟨by omega, fun _ => by omega⟩
    · obtain ⟨rfl, rfl⟩ := List.cons.inj whole
      have later := (ih next plain (List.append_assoc ..) led).1
      exact ⟨by omega, by simp⟩

end TypedContracts.Files
