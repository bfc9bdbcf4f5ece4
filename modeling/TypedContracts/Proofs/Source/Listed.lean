import TypedContracts.Proofs.Source.Below

/-!
What the search keeps. Below a directory it lists each row of names that leads to a source, in
order and once; whether an excluded directory is passed is told from the whole path.
-/
namespace TypedContracts.Source
open Files
variable {files : Files} {root base path name : String} {names : List String}

/-- The components that every path below a directory starts with. -/
def stem (base : String) : List String := if base = "." then [] else Path.components base

theorem along_moves (present : base ≠ "") (plain : ∀ name ∈ names, Path.PlainName name)
    (some : names ≠ []) : along base names ≠ "." := by
  obtain ⟨before, name, rfl⟩ := List.eq_nil_or_concat names |>.resolve_left some
  rw [List.concat_eq_append] at plain ⊢
  obtain ⟨above, last⟩ := List.forall_mem_append.mp plain
  have own := last name List.mem_cons_self
  rw [along_concat]
  exact entryPath_moves (along_present present above) own.noSlash fun _ => own.notHere

theorem stem_entryPath (present : path ≠ "") (plain : Path.PlainName name) :
    stem (entryPath path name) = stem path ++ [name] := by
  rw [stem, if_neg (entryPath_moves present plain.noSlash fun _ => plain.notHere)]
  unfold entryPath stem
  split
  · exact Path.components_of_segments plain.named (Path.segments_plain plain.noSlash)
  · exact Path.components_join present plain

theorem stem_along (present : base ≠ "") (plain : ∀ name ∈ names, Path.PlainName name) :
    stem (along base names) = stem base ++ names := by
  induction names generalizing base with
  | nil => exact (List.append_nil _).symm
  | cons name names ih =>
    obtain ⟨first, rest⟩ := List.forall_mem_cons.mp plain
    have later := ih (entryPath_present present first.named) rest
    rw [stem_entryPath present first, List.append_assoc] at later
    exact later

theorem components_along (present : base ≠ "") (plain : ∀ name ∈ names, Path.PlainName name)
    (some : names ≠ []) : Path.components (along base names) = stem base ++ names := by
  rw [← stem_along present plain, stem, if_neg (along_moves present plain some)]

/-- A name with a source extension, and be it nothing else. -/
def SourceName (name : String) : Prop :=
  ∃ front, name = front ++ ".scilla" ∨ name = front ++ ".scillib"

theorem endsWith_iff (part text : String) :
    Text.endsWith part text = true ↔ ∃ front, text = front ++ part := by
  rw [Text.endsWith, List.isSuffixOf_iff_suffix]
  constructor
  · rintro ⟨front, whole⟩
    exact ⟨String.ofList front, by rw [← String.toList_inj]; simpa using whole.symm⟩
  · rintro ⟨front, rfl⟩
    exact ⟨front.toList, by simp⟩

theorem extension_iff (name : String) :
    (extensions.any fun extension => Text.endsWith ("." ++ extension) name) = true ↔
      SourceName name := by
  have contract : "." ++ contractExtension = ".scilla" := by decide
  have library : "." ++ libraryExtension = ".scillib" := by decide
  simp [extensions, contract, library, endsWith_iff, SourceName, exists_or]

/-- Names that lead from a directory to a source without passing an excluded directory. -/
structure Reaches (files : Files) (base : String) (names : List String) : Prop where
  leads : Leads files base names
  named : ∃ name ∈ names.getLast?, SourceName name
  admitted : excludedDirectory ∉ names

theorem isSource_along (present : base ≠ "") (plain : ∀ name ∈ names, Path.PlainName name)
    (some : names ≠ []) : isSource (along base names) = true ↔
      (∃ name ∈ names.getLast?, SourceName name) ∧ excludedDirectory ∉ stem base ∧
        excludedDirectory ∉ names := by
  have whole := components_along present plain some
  obtain ⟨above, name, rfl⟩ := List.eq_nil_or_concat names |>.resolve_left some
  rw [List.concat_eq_append] at plain whole ⊢
  have own := plain name (by simp)
  have last := Path.fileName_last (whole.trans (List.append_assoc ..).symm) own
  have ending : (extensions.any (hasExtension · (along base (above ++ [name])))) = true ↔
      SourceName name := by
    simp only [← extension_iff, hasExtension, last]
  rw [isSource, Bool.and_eq_true, ending, isExcluded, whole]
  simp only [List.getLast?_concat, Option.mem_some_iff, exists_eq_left', Bool.not_eq_true',
    List.contains_eq_mem, decide_eq_false_iff_not, List.mem_append, not_or]

structure Lists (files : Files) (base : String) (rows : List (List String)) : Prop where
  ordered : rows.Pairwise (· < ·)
  exactly : ∀ names, names ∈ rows ↔ Reaches files base names

theorem Lists.unique {others : Files} {away : String} {rows further : List (List String)}
    (here : Lists files base rows) (there : Lists others away further)
    (alike : ∀ names, Leads files base names ↔ Leads others away names) : rows = further := by
  refine List.Pairwise.eq_of_mem_iff here.ordered there.ordered fun names => ?_
  rw [here.exactly, there.exactly]
  constructor
  · rintro ⟨leads, named, admitted⟩
    exact ⟨(alike names).mp leads, named, admitted⟩
  · rintro ⟨leads, named, admitted⟩
    exact ⟨(alike names).mpr leads, named, admitted⟩

theorem Lists.plain (orderly : files.root.Orderly) {rows : List (List String)}
    (lists : Lists files base rows) {names : List String} (member : names ∈ rows) :
    names ≠ [] ∧ ∀ name ∈ names, Path.PlainName name := by
  have reaches := (lists.exactly names).mp member
  refine ⟨?_, leads_plain orderly reaches.leads⟩
  rintro rfl
  simpa using reaches.named

theorem Lists.ascending (orderly : files.root.Orderly) (present : base ≠ "")
    {rows : List (List String)} (lists : Lists files base rows) :
    Path.Ascending (rows.map (along base)) := by
  rw [Path.Ascending, List.pairwise_map]
  refine lists.ordered.imp_of_mem fun {a b} first second less => ?_
  obtain ⟨aSome, aPlain⟩ := lists.plain orderly first
  obtain ⟨bSome, bPlain⟩ := lists.plain orderly second
  rw [components_along present aPlain aSome, components_along present bPlain bSome,
    Path.append_lt_append_iff]
  exact less

/-- The search follows every row of names, and what it keeps comes in order. -/
theorem lists_sorted (orderly : files.root.Orderly) (grounded : files.Grounded)
    (present : base ≠ "") (kept : List String → Bool)
    (keeps : ∀ names ∈ trails files (depthBound files) base, kept names = true ↔
      (∃ name ∈ names.getLast?, SourceName name) ∧ excludedDirectory ∉ names) :
    Lists files base (((trails files (depthBound files) base).filter kept).mergeSort
      Path.precedes) := by
  constructor
  · have sorted : (((trails files (depthBound files) base).filter kept).mergeSort
        Path.precedes).Pairwise fun a b => Path.precedes a b = true :=
      List.pairwise_mergeSort (fun a b c => by simp only [Path.precedes_iff]; exact le_trans)
        (fun a b => by simpa only [Bool.or_eq_true, Path.precedes_iff] using le_total a b) _
    have once := (List.mergeSort_perm _ Path.precedes).nodup_iff.mpr
      ((trails_nodup orderly (depthBound files) base).filter kept)
    exact (sorted.and once).imp fun ⟨before, different⟩ =>
      lt_of_le_of_ne ((Path.precedes_iff _ _).mp before) different
  · intro names
    rw [List.mem_mergeSort, List.mem_filter]
    constructor
    · rintro ⟨member, keep⟩
      obtain ⟨named, admitted⟩ := (keeps names member).mp keep
      exact ⟨((mem_trails _ _ _).mp member).2.2, named, admitted⟩
    · rintro ⟨leads, named, admitted⟩
      have some : names ≠ [] := by
        rintro rfl
        simp at named
      have member := (mem_trails (depthBound files) base names).mpr
        ⟨some, leads_length orderly grounded present leads, leads⟩
      exact ⟨member, (keeps names member).mpr ⟨named, admitted⟩⟩

theorem lists_some (orderly : files.root.Orderly) (grounded : files.Grounded)
    (present : base ≠ "") : ∃ rows, Lists files base rows := by
  classical
  exact ⟨_, lists_sorted orderly grounded present
    (fun names => decide ((∃ name ∈ names.getLast?, SourceName name) ∧ excludedDirectory ∉ names))
    fun names _ => decide_eq_true_iff⟩

theorem sorted_below (orderly : files.root.Orderly) (grounded : files.Grounded)
    (present : base ≠ "") {rows : List (List String)} (lists : Lists files base rows) :
    Path.sorted ((below files (depthBound files) base).filter isSource) =
      if excludedDirectory ∈ stem base then [] else rows.map (along base) := by
  have source : ∀ names ∈ trails files (depthBound files) base,
      (isSource (along base names) = true ↔
        (∃ name ∈ names.getLast?, SourceName name) ∧ excludedDirectory ∉ stem base ∧
          excludedDirectory ∉ names) := by
    intro names member
    obtain ⟨some, -, leads⟩ := (mem_trails _ _ _).mp member
    exact isSource_along present (leads_plain orderly leads) some
  rw [below_trails, List.filter_map]
  split
  · rename_i inside
    have none : (trails files (depthBound files) base).filter (isSource ∘ along base) = [] := by
      rw [List.filter_eq_nil_iff]
      intro names member isKept
      exact ((source names member).mp isKept).2.1 inside
    rw [none, List.map_nil, Path.sorted, List.mergeSort_nil]
  · rename_i outside
    have same := (lists_sorted orderly grounded present (isSource ∘ along base) fun names member => by
      rw [Function.comp_apply, source names member, and_iff_right outside]).unique lists
      fun _ => Iff.rfl
    rw [← same, Path.sorted, List.map_mergeSort]
    intro a aMember b bMember
    have components : ∀ names ∈ (trails files (depthBound files) base).filter (isSource ∘ along base),
        Path.components (along base names) = stem base ++ names := by
      intro names member
      obtain ⟨some, -, leads⟩ := (mem_trails _ _ _).mp (List.mem_of_mem_filter member)
      exact components_along present (leads_plain orderly leads) some
    rw [components a aMember, components b bMember, Bool.eq_iff_iff, Path.precedes_iff,
      Path.precedes_iff, ← not_lt, ← not_lt, Path.append_lt_append_iff]

end TypedContracts.Source
