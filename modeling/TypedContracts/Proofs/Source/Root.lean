import TypedContracts.Proofs.Source.Listed

/-!
How the root is spelt. The search spells it anew segment by segment. What it spells leads to the
same directory through the same names, and is never longer than the root was.
-/
namespace TypedContracts

namespace Path
variable {path other : String}

theorem segments_text (path : String) :
    ['/'].intercalate ((segments path).map String.toList) = path.toList := by
  have same : (segments path).map String.toList = path.toList.splitOn '/' := by
    simp [segments_eq, Function.comp_def]
  rw [same, List.intercalate_splitOn]

theorem segments_noSlash (path : String) :
    ∀ segment ∈ segments path, '/' ∉ segment.toList := by
  have pieces : ∀ cs : List Char, ∀ piece ∈ cs.splitOn '/', '/' ∉ piece := by
    intro cs
    induction cs with
    | nil => simp
    | cons c cs ih =>
      obtain ⟨piece, rest, split⟩ := List.exists_cons_of_ne_nil (List.splitOn_ne_nil '/' cs)
      rw [split] at ih
      obtain ⟨first, others⟩ := List.forall_mem_cons.mp ih
      rw [List.splitOn_cons_eq_if_modifyHead, split]
      by_cases slash : c = '/'
      · simpa [slash] using ⟨first, others⟩
      · simpa [slash, Ne.symm slash] using ⟨first, others⟩
  rw [segments_eq]
  simpa using pieces path.toList

theorem intercalate_sublist {as bs : List (List Char)} (sub : as.Sublist bs) (some : as ≠ []) :
    (['/'].intercalate as).Sublist (['/'].intercalate bs) := by
  induction sub with
  | slnil => exact absurd rfl some
  | @cons as bs piece sub ih =>
    have more : bs ≠ [] := by
      rintro rfl
      exact some (List.sublist_nil.mp sub)
    rw [List.intercalate_cons_of_ne_nil more]
    exact (ih some).trans (List.sublist_append_right _ _)
  | @cons_cons as bs piece sub ih =>
    by_cases last : as = []
    · subst last
      rw [List.intercalate_singleton]
      by_cases more : bs = []
      · rw [more, List.intercalate_singleton]
      · rw [List.intercalate_cons_of_ne_nil more, List.append_assoc]
        exact List.sublist_append_left _ _
    · have more : bs ≠ [] := by
        rintro rfl
        exact last (List.sublist_nil.mp sub)
      rw [List.intercalate_cons_of_ne_nil last, List.intercalate_cons_of_ne_nil more]
      exact (ih last).append_left _

theorem text_sublist (sub : (segments path).Sublist (segments other)) :
    path.toList.Sublist other.toList := by
  rw [← segments_text path, ← segments_text other]
  exact intercalate_sublist (sub.map _) (by simpa using segments_ne_nil path)

theorem segments_first (present : path ≠ "") :
    ∃ first rest, segments path = first :: rest ∧ (first = "" ↔ isAbsolute path = true) := by
  obtain ⟨c, cs, text⟩ := List.exists_cons_of_ne_nil (mt String.toList_eq_nil_iff.mp present)
  obtain ⟨piece, pieces, split⟩ := List.exists_cons_of_ne_nil (List.splitOn_ne_nil '/' cs)
  rw [segments_eq, isAbsolute, text, List.splitOn_cons_eq_if_modifyHead, split]
  by_cases slash : c = '/'
  · exact ⟨"", _, by rw [if_pos (by simpa using slash)]; rfl, by simp [slash]⟩
  · refine ⟨String.ofList (c :: piece), pieces.map String.ofList, ?_, ?_⟩
    · rw [if_neg (by simpa using slash)]
      rfl
    · simp [slash, ← String.toList_inj]

end Path

namespace Files
open Node
variable {files : Files} {path root : String} {names : List String}

theorem checkPath_sublist (present : path ≠ "") (sub : path.toList.Sublist root.toList)
    (checked : checkPath root = .ok ()) : checkPath path = .ok () := by
  have size : path.utf8ByteSize ≤ root.utf8ByteSize := by
    rw [← String.utf8Len_toList, ← String.utf8Len_toList]
    exact String.utf8Len_le_of_sublist sub
  unfold checkPath at checked ⊢
  split at checked
  · cases checked
  rename_i clean
  split at checked
  · cases checked
  rename_i short
  rw [if_neg, if_neg (by omega), if_neg (by simpa using present)]
  simp only [Text.hasNull, List.contains_eq_mem, decide_eq_true_eq] at clean ⊢
  exact fun null => clean (sub.subset null)

theorem node_present {place : List String × Node} (found : files.node path = .ok place) :
    path ≠ "" := by
  rintro rfl
  cases found

theorem named_meant (steps : List String) :
    (steps.filter (· != "")).filter meant = steps.filter meant := by
  rw [List.filter_filter]
  refine List.filter_congr fun s _ => ?_
  cases counts : meant s with
  | false => rfl
  | true => simpa [meant] using (Bool.and_eq_true_iff.mp counts).1

theorem dot_meant : (Path.segments ".").filter meant = [] := by decide

theorem steps_meant (path : String) :
    (steps path).filter meant = (Path.segments path).filter meant := by
  unfold steps
  dsimp only
  split
  · rw [List.filter_append, named_meant]
    exact List.append_nil _
  · exact named_meant _

theorem way_meant (path : String) :
    (way path).filter meant = (Path.segments path).filter meant := by
  unfold way
  split
  · rename_i here
    rw [here, dot_meant]
    rfl
  · exact named_meant _

/-- A path leads to a directory if its segments do. -/
theorem directory_iff : (∃ entries, files.node path = .ok (names, .directory entries)) ↔
    checkPath path = .ok () ∧ IsDirectoryAt files.root names ∧
      follow files.root false linkLimit (files.origin path) (Path.segments path) =
        .ok ⟨names, files.root.lookup? names⟩ := by
  constructor
  · rintro ⟨entries, found⟩
    have there := node_place found
    obtain ⟨checked, led⟩ := node_ok_iff.mp found
    refine ⟨checked, ⟨entries, there⟩, ?_⟩
    rw [there]
    exact follow_idle led ⟨entries, there⟩ (steps_meant path).symm
  · rintro ⟨checked, ⟨entries, there⟩, led⟩
    rw [there] at led
    exact ⟨entries, node_ok_iff.mpr ⟨checked, follow_idle led ⟨entries, there⟩ (steps_meant path)⟩⟩

theorem isDirectory_iff :
    files.isDirectory path = true ↔
      ∃ names entries, files.node path = .ok (names, .directory entries) := by
  unfold isDirectory
  constructor
  · intro directory
    split at directory
    · rename_i names node found
      cases node with
      | directory entries => exact ⟨names, entries, found⟩
      | file content => cases directory
      | link target => cases directory
    · cases directory
  · rintro ⟨names, entries, found⟩
    rw [found]
    rfl

end Files

namespace Source
open Files Node
variable {files : Files} {absolute : Bool} {root path segment : String} {done more : List String}

structure Spelt (absolute : Bool) (done : List String) (path : String) : Prop where
  present : path ≠ ""
  starts : Path.isAbsolute path = absolute
  means : (Path.segments path).filter meant = done.filter meant
  short : path = "." ∨ path = "/" ∧ "" ∈ done ∨ (Path.segments path).Sublist done

theorem spelt_entryPath (spelt : Spelt absolute done path) (noSlash : '/' ∉ segment.toList)
    (leads : path = "." → segment ≠ "") :
    Spelt absolute (done ++ [segment]) (entryPath path segment) := by
  obtain ⟨present, starts, means, short⟩ := spelt
  have starts := (isAbsolute_entryPath present noSlash).trans starts
  by_cases here : path = "."
  · have next : entryPath path segment = segment := if_pos here
    rw [here, dot_meant] at means
    rw [next] at starts ⊢
    refine ⟨leads here, starts, ?_, .inr (.inr ?_)⟩
    · rw [Path.segments_plain noSlash, List.filter_append, ← means, List.nil_append]
    · rw [Path.segments_plain noSlash]
      exact List.sublist_append_right _ _
  · have next : entryPath path segment = Path.join path segment := if_neg here
    obtain ⟨above, joined, some, whole⟩ := Path.segments_join present noSlash
    rw [next] at starts ⊢
    refine ⟨?_, starts, ?_, .inr (.inr ?_)⟩
    · unfold Path.join
      split <;> simp [present]
    · have same : (Path.segments path).filter meant = above.filter meant := by
        rcases whole with ⟨before, -⟩ | ⟨before, -⟩
        · rw [before]
        · rw [before, List.filter_append]
          exact List.append_nil _
      rw [joined, List.filter_append, List.filter_append, ← means, same]
    · rw [joined]
      refine List.Sublist.append ?_ (List.Sublist.refl _)
      rcases short with dot | ⟨top, opened⟩ | sub
      · exact absurd dot here
      -- The top directory ends in a slash, so the join takes up its second empty segment.
      · have segments : Path.segments "/" = [""] ++ [""] := by decide
        rw [top, segments] at whole
        obtain rfl : above = [""] := by
          rcases whole with ⟨_, noEnd⟩ | ⟨same, _⟩
          · exact absurd noEnd (by decide)
          · exact (List.append_cancel_right same).symm
        exact List.singleton_sublist.mpr opened
      · refine List.Sublist.trans ?_ sub
        rcases whole with ⟨before, -⟩ | ⟨before, -⟩ <;> simp [before]

theorem spelt_directory (checked : checkPath root = .ok ())
    (spelt : Spelt (Path.isAbsolute root) done path) (part : done.Sublist (Path.segments root))
    {names : List String} (there : IsDirectoryAt files.root names)
    (led : follow files.root false linkLimit (files.origin root) done =
      .ok ⟨names, files.root.lookup? names⟩) :
    ∃ entries, files.node path = .ok (names, .directory entries) := by
  have origin : files.origin path = files.origin root := by rw [origin, origin, spelt.starts]
  refine directory_iff.mpr ⟨?_, there, ?_⟩
  · rcases spelt.short with rfl | ⟨rfl, -⟩ | sub
    · rfl
    · rfl
    · exact checkPath_sublist spelt.present (Path.text_sublist (sub.trans part)) checked
  · rw [origin]
    exact follow_idle led there spelt.means

variable {names : List String} {entries : List (String × Node)}

theorem descend_spelt (grounded : files.Grounded)
    (found : files.node root = .ok (names, .directory entries))
    (whole : Path.segments root = done ++ segment :: more)
    (spelt : Spelt (Path.isAbsolute root) done path) (leads : path = "." → segment ≠ "") :
    descend files path segment = some (entryPath path segment) ∧
      Spelt (Path.isAbsolute root) (done ++ [segment]) (entryPath path segment) := by
  obtain ⟨checked, there, led⟩ := directory_iff.mp ⟨entries, found⟩
  have start := origin_directory grounded (Path.isAbsolute root)
  have noSlash : '/' ∉ segment.toList := Path.segments_noSlash root segment (by simp [whole])
  have next := spelt_entryPath spelt noSlash leads
  have fore : Path.segments root = done ++ [segment] ++ more := by simp [whole]
  obtain ⟨_, above, toAbove⟩ := follow_prefix start (whole ▸ led) there
  obtain ⟨_, below, toBelow⟩ := follow_prefix start (fore ▸ led) there
  obtain ⟨_, before⟩ := spelt_directory checked spelt
    (whole ▸ List.sublist_append_left _ _) above toAbove
  obtain ⟨_, behind⟩ := spelt_directory checked next
    (fore ▸ List.sublist_append_left _ _) below toBelow
  refine ⟨?_, next⟩
  unfold descend
  dsimp only
  split
  · exact if_pos (isDirectory_iff.mpr ⟨_, _, before⟩)
  · exact if_pos (by rw [exists?, behind]; rfl)

def afterDots (segments : List String) : List String := segments.dropWhile (· == ".")

/-- The search spells what the root is to lead to, if no empty segment follows dots at its start. -/
theorem fold_spelt (grounded : files.Grounded)
    (found : files.node root = .ok (names, .directory entries))
    (whole : Path.segments root = done ++ more) (spelt : Spelt (Path.isAbsolute root) done path)
    (closed : path = "." → (afterDots more).head? ≠ some "") :
    ∃ base, more.foldlM (descend files) path = some base ∧
      Spelt (Path.isAbsolute root) (Path.segments root) base := by
  induction more generalizing done path with
  | nil =>
    rw [List.append_nil] at whole
    exact ⟨path, rfl, whole ▸ spelt⟩
  | cons segment more ih =>
    have leads : path = "." → segment ≠ "" := by
      rintro here rfl
      exact closed here rfl
    obtain ⟨step, next⟩ := descend_spelt grounded found whole spelt leads
    rw [List.foldlM_cons, step]
    refine ih (by simp [whole]) next fun still => ?_
    have noSlash : '/' ∉ segment.toList := Path.segments_noSlash root segment (by simp [whole])
    have dots : path = "." ∧ segment = "." := by
      by_contra moved
      exact entryPath_moves spelt.present noSlash (fun here dot => moved ⟨here, dot⟩) still
    obtain ⟨here, rfl⟩ := dots
    exact closed here

theorem fold_open (opened : (afterDots more).head? = some "") :
    more.foldlM (descend files) "." = none := by
  induction more with
  | nil => cases opened
  | cons segment more ih =>
    rw [List.foldlM_cons]
    by_cases dot : segment = "."
    · rw [dot] at opened ⊢
      have stays : entryPath "." "." = "." := by decide
      rw [descend, if_pos (.inl rfl), stays]
      split
      · exact ih opened
      · rfl
    · have empty : segment = "" := by simpa [afterDots, dot] using opened
      have nothing : entryPath "." "" = "" := by decide
      have absent : files.exists? "" = false := rfl
      rw [empty, descend, if_neg (by decide), nothing, absent]
      rfl

/-- A relative path that starts with dots and an empty segment, as two slashes in a row make it. The
search spells nothing there. -/
def OpensIdle (root : String) : Prop :=
  Path.isAbsolute root = false ∧ (afterDots (Path.segments root)).head? = some ""

instance (root : String) : Decidable (OpensIdle root) := inferInstanceAs (Decidable (_ ∧ _))

theorem spelling_spelt (grounded : files.Grounded)
    (found : files.node root = .ok (names, .directory entries)) :
    (OpensIdle root ∧ spelling? files root = none) ∨
      (¬OpensIdle root ∧ ∃ base, spelling? files root = some base ∧
        Spelt (Path.isAbsolute root) (Path.segments root) base) := by
  obtain ⟨first, rest, whole, starts⟩ := Path.segments_first (node_present found)
  have more : Path.segments (root ++ "/") = first :: (rest ++ [""]) := by
    have single : Path.segments "" = [""] := by decide
    have slash := Path.segments_slash root ""
    rw [String.append_empty, single, whole] at slash
    exact slash
  cases absolute : Path.isAbsolute root with
  | true =>
    obtain rfl := starts.mpr absolute
    have top : Spelt true [""] "/" :=
      ⟨by decide, by decide, by decide, .inr (.inl ⟨rfl, by simp⟩)⟩
    obtain ⟨base, spells, spelt⟩ := fold_spelt grounded found (List.singleton_append ▸ whole)
      (absolute ▸ top) fun here => absurd here (by decide)
    refine .inr ⟨fun opens => by simp [OpensIdle, absolute] at opens, base, ?_, absolute ▸ spelt⟩
    rw [spelling?, more]
    simpa using spells
  | false =>
    have named : first ≠ "" := fun empty => by simp [starts.mp empty] at absolute
    have spells : spelling? files root = (Path.segments root).foldlM (descend files) "." := by
      rw [spelling?, more, whole]
      split
      · rename_i same
        exact absurd (List.cons.inj same).1 named
      · rw [← List.cons_append, List.dropLast_concat]
    by_cases opened : (afterDots (Path.segments root)).head? = some ""
    · exact .inl ⟨⟨absolute, opened⟩, spells.trans (fold_open opened)⟩
    · have here : Spelt false [] "." := ⟨by decide, by decide, by decide, .inl rfl⟩
      obtain ⟨base, folded, spelt⟩ := fold_spelt grounded found (List.nil_append _).symm
        (absolute ▸ here) fun _ => opened
      exact .inr ⟨fun opens => opened opens.2, base, spells.trans folded, absolute ▸ spelt⟩

theorem spelt_node (found : files.node root = .ok (names, .directory entries))
    (spelt : Spelt (Path.isAbsolute root) (Path.segments root) path) :
    files.node path = .ok (names, .directory entries) := by
  obtain ⟨checked, there, led⟩ := directory_iff.mp ⟨entries, found⟩
  obtain ⟨others, same⟩ := spelt_directory checked spelt (List.Sublist.refl _) there led
  have alike := (node_place found).symm.trans (node_place same)
  rw [same, Option.some.inj alike]

theorem mem_components {name : String} (present : path ≠ "") (counts : meant name = true) :
    name ∈ Path.components path ↔ name ∈ (Path.segments path).filter meant := by
  obtain ⟨first, rest, whole, -⟩ := Path.segments_first present
  have other : ∀ {s}, meant s = false → name ≠ s := by
    rintro s idle rfl
    rw [counts] at idle
    cases idle
  rw [Path.components_of_segments present whole, whole, List.filter_cons]
  cases idle : meant first with
  | true => rfl
  | false => simpa [meant] using fun same => absurd same (other idle)

theorem mem_stem {name : String} (present : root ≠ "")
    (spelt : Spelt absolute (Path.segments root) path) (counts : meant name = true) :
    name ∈ stem path ↔ name ∈ Path.components root := by
  rw [mem_components present counts, ← spelt.means, stem]
  split
  · rename_i here
    rw [here, dot_meant]
  · exact mem_components spelt.present counts

theorem find_spelt {base : String} {rows : List (List String)} (orderly : files.root.Orderly)
    (grounded : files.Grounded) (present : root ≠ "") (spells : spelling? files root = some base)
    (spelt : Spelt absolute (Path.segments root) base) (lists : Lists files base rows) :
    find files root =
      if excludedDirectory ∈ Path.components root then [] else rows.map (along base) := by
  rw [find, spells]
  dsimp only
  rw [sorted_below orderly grounded spelt.present lists]
  exact if_congr (mem_stem present spelt (by decide)) rfl rfl

theorem descend_present {next : String} (present : path ≠ "")
    (step : descend files path segment = some next) : next ≠ "" := by
  unfold descend at step
  dsimp only at step
  split at step
  · rename_i dots
    have named : segment ≠ "" := by rcases dots with rfl | rfl <;> decide
    split at step
    · exact Option.some.inj step ▸ entryPath_present present named
    · cases step
  · split at step
    · rename_i there
      rintro rfl
      rw [Option.some.inj step] at there
      cases there
    · cases step

theorem foldlM_present {base : String} (present : path ≠ "")
    (folded : more.foldlM (descend files) path = some base) : base ≠ "" := by
  induction more generalizing path with
  | nil => exact Option.some.inj folded ▸ present
  | cons segment more ih =>
    rw [List.foldlM_cons] at folded
    obtain ⟨next, step, rest⟩ := Option.bind_eq_some_iff.mp folded
    exact ih (descend_present present step) rest

theorem spelling_present {base : String} (spells : spelling? files root = some base) : base ≠ "" := by
  unfold spelling? at spells
  split at spells
  · exact foldlM_present (by decide) spells
  · exact foldlM_present (by decide) spells

theorem find_ascending (orderly : files.root.Orderly) (grounded : files.Grounded) (root : String) :
    Path.Ascending (find files root) := by
  unfold find
  split
  · exact List.Pairwise.nil
  · rename_i base spells
    have present := spelling_present spells
    obtain ⟨rows, lists⟩ := lists_some orderly grounded present
    rw [sorted_below orderly grounded present lists]
    split
    · exact List.Pairwise.nil
    · exact lists.ascending orderly present

end Source
end TypedContracts
