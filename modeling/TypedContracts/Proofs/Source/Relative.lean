import TypedContracts.Proofs.Source.Root

/-!
Sources relative to their root. A tree without links lists the same names wherever it stands, but a
root inside an excluded directory hides them all.
-/
namespace TypedContracts

namespace Node
variable {entries : List (String × Node)}

def LinkFree (tree : Node) : Prop := ∀ names target, tree.lookup? names ≠ some (.link target)

theorem lookup_isSome_iff {name : String} :
    ((directory entries).lookup? [name]).isSome ↔ name ∈ entries.map (·.1) := by
  have child : (directory entries).lookup? [name] = entries.lookup name := by
    rw [lookup?]
    split
    · rename_i there
      exact there.symm
    · rename_i absent
      exact absent.symm
  rw [child, Json.mem_keys_iff]

end Node

namespace Files
open Node
variable {files : Files} {root : Node} {links : Nat} {place names : List String}
  {entries : List (String × Node)}

theorem follow_directories (plain : ∀ name ∈ names, Path.PlainName name)
    (short : ∀ name ∈ names, name.utf8ByteSize ≤ nameLimit)
    (there : IsDirectoryAt root (place ++ names)) (more : List String) :
    follow root false links place (names ++ more) =
      follow root false links (place ++ names) more := by
  induction names generalizing place with
  | nil => rw [List.append_nil, List.nil_append]
  | cons name names ih =>
    obtain ⟨own, others⟩ := List.forall_mem_cons.mp plain
    obtain ⟨fits, rest⟩ := List.forall_mem_cons.mp short
    rw [List.append_cons place name names] at there
    obtain ⟨_, found⟩ : IsDirectoryAt root (place ++ [name]) := by
      obtain ⟨_, found⟩ := there
      by_cases last : names = []
      · exact ⟨_, by simpa [last] using found⟩
      · exact directory_above _ last found
    rw [List.cons_append,
      follow_name ⟨own.named, own.notHere, own.notAbove⟩ (Nat.not_lt.mpr fits) found,
      ih others rest there, List.append_cons place name names]

theorem follow_last {name : String} {content : List UInt8} {reached : Place}
    (plain : Path.PlainName name) (there : root.lookup? (place ++ [name]) = some (.file content))
    (led : follow root false links place [name] = .ok reached) :
    reached.node = some (.file content) := by
  by_cases long : nameLimit < name.utf8ByteSize
  · rw [follow, if_neg (by simp), if_pos long] at led
    · cases led
    exacts [plain.named, plain.notHere, plain.notAbove]
  · rw [follow_file ⟨plain.named, plain.notHere, plain.notAbove⟩ long there] at led
    cases led
    rfl

end Files

namespace Source
open Files Node
variable {files : Files} {root base : String} {tree : Node} {place names : List String}

/-- No directory of a tree that stands there has a path too long for the system. -/
def Fits (base : String) (tree : Node) : Prop :=
  ∀ names entries, tree.lookup? names = some (.directory entries) →
    checkPath (along base names) = .ok () ∧ ∀ name ∈ names, name.utf8ByteSize ≤ nameLimit

theorem origin_along (present : base ≠ "") (plain : ∀ name ∈ names, Path.PlainName name) :
    files.origin (along base names) = files.origin base := by
  rw [origin, origin, isAbsolute_along present plain]

theorem way_walked (grounded : files.Grounded) {entries : List (String × Node)}
    (found : files.node base = .ok (place, .directory entries)) :
    ∃ left, ∀ names, follow files.root false linkLimit (files.origin base) (way base ++ names) =
      follow files.root false left place names := by
  obtain ⟨-, there, led⟩ := directory_iff.mp ⟨entries, found⟩
  have start := origin_directory grounded (Path.isAbsolute base)
  have toward : (way base ++ [""]).filter meant = (Path.segments base).filter meant := by
    rw [List.filter_append, way_meant]
    exact List.append_nil _
  obtain ⟨left, above, -, same⟩ := follow_resume start (by simp) (follow_idle led there toward)
  have whole := (follow_idle led there (way_meant base)).symm.trans
    ((congrArg _ (List.append_nil _).symm).trans (same []))
  rw [follow] at whole
  obtain rfl : place = above := congrArg Place.names (Except.ok.inj whole)
  exact ⟨left, same⟩

variable {entries : List (String × Node)} (orderly : files.root.Orderly)
  (grounded : files.Grounded) (found : files.node base = .ok (place, .directory entries))
  (fits : Fits base (.directory entries))

include found in
theorem lookup_below (names : List String) :
    files.root.lookup? (place ++ names) = (directory entries).lookup? names := by
  rw [lookup_append, node_place found]
  rfl

include orderly found in
theorem plain_below {node : Node} (there : (directory entries).lookup? names = some node) :
    ∀ name ∈ names, Path.PlainName name := by
  have whole := orderly.names ((lookup_below found names).trans there)
  exact (List.forall_mem_append.mp whole).2

include orderly grounded found fits

theorem node_below {others : List (String × Node)}
    (there : (directory entries).lookup? names = some (.directory others)) :
    files.node (along base names) = .ok (place ++ names, .directory others) := by
  have present := node_present found
  have plain := plain_below orderly found there
  have stands := (lookup_below found names).trans there
  have directory : IsDirectoryAt files.root (place ++ names) := ⟨others, stands⟩
  obtain ⟨checked, short⟩ := fits names others there
  obtain ⟨left, walked⟩ := way_walked grounded found
  have led := walked names
  rw [← List.append_nil names, follow_directories plain short directory, follow,
    List.append_nil] at led
  have same : (Path.segments (along base names)).filter meant =
      (way base ++ names).filter meant := by
    rw [← way_along present plain, way_meant]
  obtain ⟨others, leads⟩ := directory_iff.mpr
    ⟨checked, directory, origin_along present plain ▸ follow_idle led directory same⟩
  have alike := stands.symm.trans (node_place leads)
  rw [leads, ← Option.some.inj alike]

theorem children_below {node : Node} (free : ∀ target, node ≠ .link target)
    (there : (directory entries).lookup? names = some node) (name : String) :
    name ∈ files.children (along base names) ↔ (node.lookup? [name]).isSome := by
  cases node with
  | link target => exact absurd rfl (free target)
  | directory others =>
    rw [children, node_below orderly grounded found fits there]
    exact lookup_isSome_iff.symm
  | file content =>
    refine iff_of_false (fun member => ?_) (by simp [lookup?])
    obtain ⟨_, others, leads, -⟩ := children_node member
    obtain ⟨-, led⟩ := node_ok_iff.mp leads
    have present := node_present found
    have plain := plain_below orderly found there
    obtain ⟨left, walked⟩ := way_walked grounded found
    rcases List.eq_nil_or_concat names with rfl | ⟨above, last, rfl⟩
    · cases there
    rw [List.concat_eq_append] at there plain led
    obtain ⟨abovePlain, lastPlain⟩ := List.forall_mem_append.mp plain
    obtain ⟨_, directory⟩ := directory_above above (by simp) there
    have own := lastPlain last List.mem_cons_self
    rw [origin_along present plain, steps_along present plain (by simp), walked,
      follow_directories abovePlain (fits above _ directory).2
        ⟨_, (lookup_below found above).trans directory⟩] at led
    have stands := (lookup_below found (above ++ [last])).trans there
    rw [← List.append_assoc] at stands
    cases follow_last own stands led

theorem leads_iff_lookup (free : (directory entries).LinkFree) (names : List String) :
    Leads files base names ↔ ((directory entries).lookup? names).isSome := by
  induction names using List.reverseRecOn with
  | nil => simp [Leads, lookup?]
  | append_singleton names name ih =>
    rw [leads_append, ih, lookup_append]
    cases there : (directory entries).lookup? names with
    | none => simp
    | some node =>
      have noLink : ∀ target, node ≠ .link target := by
        rintro target rfl
        exact free names target there
      simpa [Leads] using children_below orderly grounded found fits noLink there name

theorem directories_below (free : (directory entries).LinkFree) (leads : Leads files base names)
    {name : String} (member : name ∈ files.directories (along base names)) :
    ∃ others, (directory entries).lookup? (names ++ [name]) = some (.directory others) := by
  obtain ⟨_, further, others, led, among⟩ := directories_node member
  have child : name ∈ files.children (along base names) := by
    rw [children, led]
    exact List.mem_map_of_mem among
  obtain ⟨node, there⟩ := Option.isSome_iff_exists.mp
    ((leads_iff_lookup orderly grounded found fits free names).mp leads)
  cases node with
  | link target => exact absurd there (free names target)
  -- The search goes on below files too, where there is nothing.
  | file content =>
    have inside := (children_below orderly grounded found fits (by simp) there name).mp child
    simp [lookup?] at inside
  | directory further =>
    cases (node_below orderly grounded found fits there).symm.trans led
    have own := (Json.lookup_once (orderly _ _ (node_place led)).1 name _).mpr among
    exact ⟨others, by rw [lookup_append, there]; simp [lookup?, own]⟩

theorem listed_below (free : (directory entries).LinkFree) {fuel : Nat} {path : String}
    (member : path ∈ directoriesBelow files fuel base) : files.Listable path := by
  obtain ⟨names, name, leads, directory, rfl⟩ := mem_directoriesBelow member
  obtain ⟨others, there⟩ := directories_below orderly grounded found fits free leads directory
  exact ⟨_, by rw [list, node_below orderly grounded found fits there]⟩

theorem Lists.told {rows : List (List String)} (lists : Lists files base rows)
    (free : (directory entries).LinkFree) (names : List String) :
    names ∈ rows ↔ ((directory entries).lookup? names).isSome ∧
      (∃ name ∈ names.getLast?, SourceName name) ∧ excludedDirectory ∉ names := by
  rw [lists.exactly, ← leads_iff_lookup orderly grounded found fits free]
  constructor
  · rintro ⟨leads, named, admitted⟩
    exact ⟨leads, named, admitted⟩
  · rintro ⟨leads, named, admitted⟩
    exact ⟨leads, named, admitted⟩

omit orderly grounded found fits

theorem find_inside (orderly : files.root.Orderly) (grounded : files.Grounded)
    (found : files.node root = .ok (place, .directory entries))
    (inside : excludedDirectory ∈ Path.components root) : find files root = [] := by
  rcases spelling_spelt grounded found with ⟨-, none⟩ | ⟨-, base, spells, spelt⟩
  · rw [find, none]
  · obtain ⟨rows, lists⟩ := lists_some orderly grounded spelt.present
    rw [find_spelt orderly grounded (node_present found) spells spelt lists, if_pos inside]

/-- The rows of names to the sources below a root, and the spelling that goes before them. -/
structure Found (files : Files) (root base : String) (tree : Node)
    (rows : List (List String)) : Prop where
  spelt : spelling? files root = if OpensIdle root then none else some base
  means : (Path.segments base).filter meant = (Path.segments root).filter meant
  same : files.node base = files.node root
  lists : Lists files base rows
  ascending : Path.Ascending (rows.map (along base))
  relative : tree.LinkFree → Fits base tree → ∀ names, names ∈ rows ↔
    (tree.lookup? names).isSome ∧ (∃ name ∈ names.getLast?, SourceName name) ∧
      excludedDirectory ∉ names

theorem Found.moved {others : Files} {away further : String} {tree : Node}
    {rows moved : List (List String)} (here : Found files root base tree rows)
    (there : Found others away further tree moved) (free : tree.LinkFree)
    (fits : Fits base tree) (fitsThere : Fits further tree) : moved = rows :=
  List.Pairwise.eq_of_mem_iff there.lists.ordered here.lists.ordered fun names => by
    rw [here.relative free fits, there.relative free fitsThere]

/-- Below a directory the search finds each source there, wherever it stands, but nothing at all if
the root itself passes an excluded directory. It ends well where no path is too long. -/
theorem sources_below_root (orderly : files.root.Orderly) (grounded : files.Grounded)
    (found : files.node root = .ok (place, .directory entries)) :
    ∃ base rows, Found files root base (.directory entries) rows ∧
      find files root = (if OpensIdle root ∨ excludedDirectory ∈ Path.components root then []
        else rows.map (along base)) ∧
      ((directory entries).LinkFree → Fits base (.directory entries) →
        search files root = .ok (find files root)) ∧
      ∀ (others : Files) (away further : String) (moved : List (List String)),
        Found others away further (.directory entries) moved → (directory entries).LinkFree →
          Fits base (.directory entries) → Fits further (.directory entries) → moved = rows := by
  have present := node_present found
  rcases spelling_spelt grounded found with ⟨opens, none⟩ | ⟨closed, base, spells, spelt⟩
  · obtain ⟨rows, lists⟩ := lists_some orderly grounded present
    have all : Found files root root (.directory entries) rows :=
      ⟨by rw [if_pos opens, none], rfl, rfl, lists, lists.ascending orderly present,
        fun free fits => lists.told orderly grounded found fits free⟩
    have listed : Listed files root := by
      rw [Listed, Source.directories, none]
      exact List.forall_mem_nil _
    refine ⟨root, rows, all, ?_, fun _ _ => search_ok_iff.mpr ⟨listed, rfl⟩,
      fun _ _ _ _ => all.moved⟩
    rw [if_pos (.inl opens), find, none]
  · have same := spelt_node found spelt
    obtain ⟨rows, lists⟩ := lists_some orderly grounded spelt.present
    have all : Found files root base (.directory entries) rows :=
      ⟨by rw [if_neg closed, spells], spelt.means, same.trans found.symm, lists,
        lists.ascending orderly spelt.present,
        fun free fits => lists.told orderly grounded same fits free⟩
    have listed (free : (directory entries).LinkFree) (fits : Fits base (.directory entries)) :
        Listed files root := by
      intro path member
      rw [Source.directories, spells] at member
      exact listed_below orderly grounded same fits free (List.mem_mergeSort.mp member)
    refine ⟨base, rows, all, ?_, fun free fits => search_ok_iff.mpr ⟨listed free fits, rfl⟩,
      fun _ _ _ _ => all.moved⟩
    rw [find_spelt orderly grounded present spells spelt lists]
    exact if_congr (or_iff_right closed).symm rfl rfl

def court : Files :=
  ⟨.directory [("Own.scilla", .file []),
    ("node_modules", .directory [("Dep.scilla", .file [])])], []⟩

theorem court_orderly : court.root.Orderly := by
  refine orderly_directory (by decide) (fun e member => ?_) fun e member => ?_
  · rcases List.mem_pair.mp member with rfl | rfl <;>
      exact ⟨by decide, by decide, by decide, by decide⟩
  · rcases List.mem_pair.mp member with rfl | rfl
    · exact orderly_file _
    · refine orderly_directory (by decide) (fun e inner => ?_) fun e inner => ?_
      · obtain rfl := List.mem_singleton.mp inner
        exact ⟨by decide, by decide, by decide, by decide⟩
      · obtain rfl := List.mem_singleton.mp inner
        exact orderly_file _

theorem court_grounded : court.Grounded := ⟨_, rfl⟩

theorem court_packages : court.node "/node_modules" =
    .ok (["node_modules"], .directory [("Dep.scilla", .file [])]) :=
  Files.node_directory rfl rfl (by decide) (by decide) (by decide) rfl

theorem own_source_found :
    court.root.Orderly ∧ court.Grounded ∧ court.node "/" = .ok ([], court.root) ∧
      "/Own.scilla" ∈ find court "/" ∧ "/node_modules/Dep.scilla" ∉ find court "/" := by
  have top := Files.node_top court
  obtain ⟨base, rows, ⟨spelt, -, -, lists, -, -⟩, found, -⟩ :=
    sources_below_root court_orderly court_grounded top
  have closed : ¬OpensIdle "/" := by decide
  have outside : excludedDirectory ∉ Path.components "/" := by decide
  rw [if_neg closed, spelling_top] at spelt
  obtain rfl := Option.some.inj spelt
  rw [if_neg (not_or.mpr ⟨closed, outside⟩)] at found
  have children : court.children "/" = _ := Files.children_top rfl
  have own : ["Own.scilla"] ∈ rows := (lists.exactly _).mpr
    ⟨by simp [Leads, children], ⟨_, rfl, "Own", .inl rfl⟩, by decide⟩
  refine ⟨court_orderly, court_grounded, top, ?_, ?_⟩
  · rw [found]
    exact List.mem_map.mpr ⟨_, own, by decide⟩
  · rw [found]
    intro member
    obtain ⟨names, among, same⟩ := List.mem_map.mp member
    obtain ⟨some, plain⟩ := lists.plain court_orderly among
    have present : "/" ≠ "" := by decide
    have components := components_along present plain some
    have start : stem "/" = [""] := by decide
    have whole : Path.components "/node_modules/Dep.scilla" = ["", "node_modules", "Dep.scilla"] := by
      decide
    rw [same, start, whole] at components
    obtain rfl : names = ["node_modules", "Dep.scilla"] := by simpa using components.symm
    exact ((lists.exactly _).mp among).admitted (by decide)

/-- From inside the excluded directory the source there is hidden too. -/
theorem package_source_hidden :
    court.isDirectory "/node_modules" = true ∧ Reaches court "/node_modules" ["Dep.scilla"] ∧
      along "/node_modules" ["Dep.scilla"] = "/node_modules/Dep.scilla" ∧
      "/node_modules/Dep.scilla" ∉ find court "/node_modules" := by
  refine ⟨Files.isDirectory_iff.mpr ⟨_, _, court_packages⟩,
    ⟨?_, ⟨_, rfl, "Dep", .inl rfl⟩, by decide⟩, by decide, ?_⟩
  · simp [Leads, Files.children, court_packages]
  · rw [find_inside court_orderly court_grounded court_packages (by decide)]
    exact List.not_mem_nil

end Source
end TypedContracts
