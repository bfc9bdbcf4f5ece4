import TypedContracts.Proofs.Dump.Alike
import TypedContracts.Proofs.Dump.Reading

/-!
What is not read has no influence. A value that is read from a node is read from every node that is
alike, role by role up to the module; rows that are looked up by their tag lead to values that are
alike however often rows were replaced, added, removed or swapped.
-/
namespace TypedContracts.Dump
open Relation

def firstRow? (tag : String) (rows : List SExp) : Option SExp := rows.find? (·.tag == some tag)

def rowValue? : SExp → Option SExp
  | .list (_ :: value :: _) => some value
  | _ => none

theorem section_eq (tag : String) (rows : List SExp) : section? tag rows =
    (firstRow? tag rows).bind rowValue? := by
  unfold section? firstRow?
  cases rows.find? (·.tag == some tag) with
  | none => rfl
  | some row => rcases row with _ | _ | ⟨_, _ | _⟩ <;> rfl

theorem firstRow_append (tag : String) (rows others : List SExp) :
    firstRow? tag (rows ++ others) = (firstRow? tag rows).or (firstRow? tag others) :=
  List.find?_append

theorem firstRow_none {tag : String} {rows : List SExp} :
    firstRow? tag rows = none ↔ ∀ row ∈ rows, row.tag ≠ some tag := by
  simp [firstRow?]

theorem firstRow_cons (tag : String) (row : SExp) (rows : List SExp) :
    firstRow? tag (row :: rows) = if row.tag = some tag then some row else firstRow? tag rows := by
  by_cases here : row.tag = some tag <;> simp [firstRow?, here]

variable {table : Table}

theorem rowAlike_tag {row row' : SExp} (alike : RowAlike table row row') : row'.tag = row.tag := by
  cases alike <;> rfl

/-- Nothing in one place and in the other, or values that are joined by steps between alike ones. -/
abbrev Joined (r : SExp → SExp → Prop) : Option SExp → Option SExp → Prop :=
  Option.Rel (ReflTransGen r)

theorem joined_refl {r : SExp → SExp → Prop} (o : Option SExp) : Joined r o o := by
  cases o with
  | none => exact .none
  | some value => exact .some .refl

theorem joined_trans {r : SExp → SExp → Prop} {o p q : Option SExp} (first : Joined r o p)
    (second : Joined r p q) : Joined r o q := by
  cases first with
  | none => exact second
  | some left =>
    cases second with
    | some right => exact .some (left.trans right)

theorem joined_some {r : SExp → SExp → Prop} {v : SExp} {o : Option SExp}
    (joined : Joined r (some v) o) : ∃ w, o = some w ∧ ReflTransGen r v w := by
  cases joined with
  | some steps => exact ⟨_, rfl, steps⟩

theorem joined_none {r : SExp → SExp → Prop} {o : Option SExp} (joined : Joined r none o) :
    o = none := by
  cases joined
  rfl

theorem section_kept {rows rows' : List SExp} (each : List.Forall₂ (RowAlike table) rows rows')
    {tag : String} {Alike : SExp → SExp → Prop} (known : table.lookup tag = some Alike) :
    Joined Alike (section? tag rows) (section? tag rows') := by
  induction each with
  | nil => exact .none
  | @cons row row' rows rows' first rest ih =>
    by_cases here : row.tag = some tag
    · cases first with
      | same =>
        simp only [section_eq, firstRow_cons, if_pos here]
        exact joined_refl _
      | @value other _ value value' found alike more more' =>
        obtain rfl : other = tag := by simpa [SExp.tag] using here
        cases known.symm.trans found
        rw [section_of_known, section_of_known]
        exact .some (.single alike)
    · rw [section_of_foreign here, section_of_foreign (by rwa [rowAlike_tag first])]
      exact ih

theorem firstRow_unread {before part part' : List SExp}
    (old : ∀ row ∈ part, Unread table before row) (new : ∀ row ∈ part', Foreign table row)
    (after : List SExp) {tag : String} (known : table.lookup tag ≠ none) :
    firstRow? tag (before ++ (part ++ after)) = firstRow? tag (before ++ (part' ++ after)) := by
  simp only [firstRow_append]
  cases first : firstRow? tag before with
  | some row => rfl
  | none =>
    have oldNone : firstRow? tag part = none := by
      refine firstRow_none.mpr fun row member here => ?_
      rcases old row member with foreign | ⟨earlier, inBefore, same⟩
      · exact known (foreign tag here)
      · exact firstRow_none.mp first earlier inBefore (same.trans here)
    have newNone : firstRow? tag part' = none :=
      firstRow_none.mpr fun row member here => known (new row member tag here)
    rw [oldNone, newNone]

theorem firstRow_swapped {row other : SExp} (apart : row.tag ≠ other.tag)
    (before after : List SExp) (tag : String) :
    firstRow? tag (before ++ row :: other :: after) =
      firstRow? tag (before ++ other :: row :: after) := by
  simp only [firstRow_append, firstRow_cons]
  by_cases here : row.tag = some tag
  · have elsewhere : other.tag ≠ some tag := fun there => apart (here.trans there.symm)
    simp [here, elsewhere]
  · simp [here]

/-- The value of a tag leads to the value of that tag through values that are alike. -/
theorem section_alike {rows rows' : List SExp} (alike : RowsAlike table rows rows')
    {tag : String} {Alike : SExp → SExp → Prop} (known : table.lookup tag = some Alike) :
    Joined Alike (section? tag rows) (section? tag rows') := by
  have listed : table.lookup tag ≠ none := by simp [known]
  induction alike with
  | kept each => exact section_kept each known
  | unread old new after =>
    rw [section_eq, firstRow_unread old new after listed, ← section_eq]
    exact joined_refl _
  | swapped apart before after =>
    rw [section_eq, firstRow_swapped apart, ← section_eq]
    exact joined_refl _
  | trans first second ih ih' => exact joined_trans ih ih'

theorem section_absent {rows rows' : List SExp} (alike : RowsAlike table rows rows')
    {tag : String} {Alike : SExp → SExp → Prop} (known : table.lookup tag = some Alike)
    (absent : section? tag rows = none) : section? tag rows' = none := by
  have joined := section_alike alike known
  rw [absent] at joined
  exact joined_none joined

section Lookup
variable {α : Type}

def Keeps (Read : SExp → α → Prop) (Alike : SExp → SExp → Prop) : Prop :=
  ∀ v w a, Alike v w → Read v a → Read w a

variable {Read : SExp → α → Prop} {Alike : SExp → SExp → Prop} {a : α}

theorem joined_read (keeps : Keeps Read Alike) {v w : SExp} (joined : ReflTransGen Alike v w)
    (read : Read v a) : Read w a := by
  induction joined with
  | refl => exact read
  | tail _ step ih => exact keeps _ _ _ step ih

theorem section_read (keeps : Keeps Read Alike) {rows rows' : List SExp}
    (alike : RowsAlike table rows rows') {tag : String} (known : table.lookup tag = some Alike)
    {value : SExp} (here : section? tag rows = some value) (read : Read value a) :
    ∃ value', section? tag rows' = some value' ∧ Read value' a := by
  have joined := section_alike alike known
  rw [here] at joined
  obtain ⟨value', there, steps⟩ := joined_some joined
  exact ⟨value', there, joined_read keeps steps read⟩

theorem tagged_read (keeps : Keeps Read Alike) {tag : String} {value row' : SExp}
    {more : List SExp} (alike : RowAlike table (.list (.atom tag :: value :: more)) row')
    (known : table.lookup tag = some Alike) (read : Read value a) :
    ∃ value' more', row' = .list (.atom tag :: value' :: more') ∧ Read value' a := by
  cases alike with
  | same => exact ⟨value, more, rfl, read⟩
  | value found alike _ more' =>
    cases known.symm.trans found
    exact ⟨_, more', rfl, keeps _ _ _ alike read⟩

inductive EachRead (Read : SExp → α → Prop) : SExp → List α → Prop where
  | mk {nodes : List SExp} {as : List α} (each : List.Forall₂ Read nodes as) :
      EachRead Read (.list nodes) as

theorem each_keeps (keeps : Keeps Read Alike) : Keeps (EachRead Read) (EachAlike Alike) := by
  rintro _ _ as ⟨pairs⟩ ⟨values⟩
  refine .mk ?_
  induction pairs generalizing as with
  | nil => exact values
  | cons first rest ih =>
    cases values with
    | cons here later => exact .cons (keeps _ _ _ first here) (ih _ later)

end Lookup

theorem named_alike {node node' : SExp} {name : String} (alike : IdentAlike node node')
    (named : Named name node) : Named name node' := by
  cases alike with
  | same => exact named
  | noted kind name inner inner' outer outer' =>
    cases named with
    | mk known => exact .mk known

theorem ident_keeps : Keeps (fun node name => Named name node) IdentAlike :=
  fun _ _ _ => named_alike

mutual
theorem typed_alike : {node node' : SExp} → TypeAlike node node' → ∀ {f}, Typed node f →
    Typed node' f
  | _, _, .same _ => id
  | _, _, .primitive name more more' => by
    intro typed
    generalize here : SExp.list (.atom "PrimType" :: name :: more) = node at typed
    cases typed with
    | primitive =>
      cases here
      exact .primitive _ more'
    | _ => simp at here
  | _, _, .address more more' => by
    intro typed
    generalize here : SExp.list (.atom "Address" :: more) = node at typed
    cases typed with
    | address => exact .address more'
    | _ => simp at here
  | _, _, @TypeAlike.nullary ident _ alike => by
    intro typed
    generalize here : SExp.list [.atom "ADT", ident] = node at typed
    cases typed with
    | nullary named =>
      cases here
      exact .nullary (named_alike alike named)
    | _ => simp at here
  | _, _, @TypeAlike.application ident _ nodes _ alike each more more' => by
    intro typed
    generalize here : SExp.list (.atom "ADT" :: ident :: .list nodes :: more) = node at typed
    cases typed with
    | application named types =>
      cases here
      exact .application (named_alike alike named) (typesAlike each types) more'
    | _ => simp at here
  | _, _, @TypeAlike.map key _ value _ first second => by
    intro typed
    generalize here : SExp.list [.atom "MapType", key, value] = node at typed
    cases typed with
    | map keyTyped valueTyped =>
      cases here
      exact .map (typed_alike first keyTyped) (typed_alike second valueTyped)
    | _ => simp at here
theorem typesAlike : {nodes nodes' : List SExp} → TypesAlike nodes nodes' → ∀ {fs},
    AllTyped nodes fs → AllTyped nodes' fs
  | _, _, .nil => id
  | _, _, .cons first rest => by
    rintro (_ | ⟨here, later⟩)
    exact .cons (typed_alike first here) (typesAlike rest later)
end

theorem slot_keeps : Keeps RowRead SlotAlike := by
  intro row row' f alike read
  cases alike with
  | same => exact read
  | mk named typed more more' =>
    cases read with
    | mk name type => exact .mk (named_alike named name) (typed_alike typed type) more'

theorem component_keeps : Keeps ComponentRead ComponentAlike := by
  rintro _ _ m ⟨first, second, third, body, body'⟩ read
  cases read with
  | mk named each kindMore nameMore paramsMore =>
  obtain ⟨ident, nameMore', rfl, named'⟩ := tagged_read ident_keeps second rfl named
  obtain ⟨_, paramsMore', rfl, ⟨each'⟩⟩ := tagged_read (each_keeps slot_keeps) third rfl (.mk each)
  cases first with
  | same => exact .mk named' each' kindMore nameMore' paramsMore' body'
  | value found => cases found

theorem arguments_keep : Keeps (fun node fs => ∃ nodes, node = .list nodes ∧ AllTyped nodes fs)
    ArgumentsAlike := by
  rintro _ _ fs ⟨each⟩ ⟨_, ⟨⟩, typed⟩
  exact ⟨_, rfl, typesAlike each typed⟩

theorem clause_keeps (typeName : String) :
    Keeps (ClauseRead typeName) (NodeAlike clauseTable) := by
  rintro _ _ k ⟨alike⟩ ⟨nameRow, typesRow, named, each⟩
  obtain ⟨ident, nameRow', named'⟩ := section_read ident_keeps alike rfl nameRow named
  obtain ⟨_, typesRow', nodes, rfl, each'⟩ :=
    section_read arguments_keep alike rfl typesRow ⟨_, rfl, each⟩
  exact .mk nameRow' typesRow' named' each'

theorem entry_keeps : Keeps EntryRead EntryAlike := by
  intro entry entry' ks alike read
  cases alike with
  | same => exact read
  | value parts parts' =>
    generalize here : SExp.list (.atom "LibVar" :: parts) = entry at read
    cases read with
    | value => exact .value parts'
    | type => simp at here
  | @type ident ident' clauses clauses' named each more more' =>
    generalize here : SExp.list (.atom "LibTyp" :: ident :: clauses :: more) = entry at read
    cases read with
    | value => simp at here
    | @type typeName _ _ _ name values =>
      cases here
      obtain ⟨values'⟩ := each_keeps (clause_keeps typeName) _ _ _ each (.mk values)
      exact .type (named_alike named name) values' more'

theorem libraries_keep : Keeps LibrariesRead LibrariesAlike := by
  intro libs libs' ks alike read
  cases alike with
  | same => exact read
  | first alike more more' =>
    obtain ⟨alike⟩ := alike
    cases read with
    | first entriesRow each =>
      obtain ⟨_, entriesRow', ⟨each'⟩⟩ :=
        section_read (each_keeps entry_keeps) alike rfl entriesRow (.mk each)
      exact .first entriesRow' each' more'

theorem contract_keeps (ks : List Constructor) :
    Keeps (fun node c => ∃ rows, node = .list rows ∧ ContractRead ks rows c)
      (NodeAlike contractTable) := by
  rintro _ _ c ⟨alike⟩ ⟨_, ⟨⟩, ⟨nameRow, named, paramsRow, eachParam, fieldsRow, eachField,
    componentsRow, eachComponent⟩⟩
  have slots := each_keeps slot_keeps
  obtain ⟨ident, nameRow', named'⟩ := section_read ident_keeps alike rfl nameRow named
  obtain ⟨_, paramsRow', ⟨eachParam'⟩⟩ := section_read slots alike rfl paramsRow (.mk eachParam)
  obtain ⟨_, fieldsRow', ⟨eachField'⟩⟩ := section_read slots alike rfl fieldsRow (.mk eachField)
  obtain ⟨_, componentsRow', ⟨eachComponent'⟩⟩ :=
    section_read (each_keeps component_keeps) alike rfl componentsRow (.mk eachComponent)
  exact ⟨_, rfl, .mk nameRow' named' paramsRow' eachParam' fieldsRow' eachField' componentsRow'
    eachComponent'⟩

theorem listed_alike {rows rows' : List SExp} {ks : List Constructor}
    (alike : RowsAlike moduleTable rows rows') (listed : Listed rows ks) : Listed rows' ks := by
  cases listed with
  | absent none => exact .absent (section_absent alike rfl none)
  | present here read =>
    obtain ⟨libs, here', read'⟩ := section_read libraries_keep alike rfl here read
    exact .present here' read'

/-- Where nothing is read, anything may stand. -/
theorem unread_parts_ignored {module module' : SExp} {c : Contract}
    (accepted : contractOf module = .ok c) (alike : ModuleAlike module module') :
    contractOf module' = .ok c := by
  rw [contractOf_ok_iff] at accepted ⊢
  obtain ⟨alike⟩ := alike
  obtain ⟨contrRow, listed, read⟩ := accepted
  obtain ⟨_, contrRow', rows, rfl, read'⟩ :=
    section_read (contract_keeps _) alike rfl contrRow ⟨_, rfl, read⟩
  exact .mk contrRow' (listed_alike alike listed) read'

def lampRow (place : SExp) (body : List SExp) : SExp :=
  let component : SExp := .list (.list [.atom "comp_type", .atom "CompTrans"] ::
    .list [.atom "comp_name", .list [.atom "Ident", .list [.atom "SimpleLocal", .atom "Light"]]] ::
    .list [.atom "comp_params", .list []] :: body)
  .list [.atom "contr", .list [
    .list [.atom "cname", .list [.atom "Ident", .list [.atom "SimpleLocal", .atom "Lamp"], place]],
    .list [.atom "cparams", .list []], .list [.atom "cfields", .list []],
    .list [.atom "ccomps", .list [component]]]]

theorem lamp_moved :
    let libs : SExp := .list [.atom "libs", .list []]
    let version : SExp := .list [.atom "smver", .atom "0"]
    let here : SExp := .list [libs, lampRow (.atom "1") []]
    let there : SExp := .list [lampRow (.atom "7") [.atom "throw"], version, libs]
    let lamp : Contract := ⟨"Lamp", none, [], [⟨"CompTrans", "Light", []⟩], []⟩
    contractOf here = .ok lamp ∧ ModuleAlike here there ∧ contractOf there = .ok lamp := by
  intro libs version here there lamp
  have accepted : contractOf here = .ok lamp := by decide
  have contract : RowAlike moduleTable (lampRow (.atom "1") [])
      (lampRow (.atom "7") [.atom "throw"]) := by
    refine .value rfl (.mk (.kept (.cons ?_ (.cons (.same _) (.cons (.same _) (.cons ?_ .nil))))))
      [] []
    · exact .value rfl (.noted _ _ [] [] _ _) [] []
    · exact .value rfl (.mk (.cons (.mk (.same _) (.same _) (.same _) _ _) .nil)) [] []
  have edited : RowsAlike moduleTable [libs, lampRow (.atom "1") []]
      [libs, lampRow (.atom "7") [.atom "throw"]] :=
    .kept (.cons (.same libs) (.cons contract .nil))
  have swapped : RowsAlike moduleTable [libs, lampRow (.atom "7") [.atom "throw"]]
      [lampRow (.atom "7") [.atom "throw"], libs] :=
    .swapped (by simp [libs, lampRow, SExp.tag]) [] []
  have added : RowsAlike moduleTable ([lampRow (.atom "7") [.atom "throw"]] ++ ([] ++ [libs]))
      ([lampRow (.atom "7") [.atom "throw"]] ++ ([version] ++ [libs])) :=
    .unread (by simp) (by simp [version, Foreign, SExp.tag, moduleTable]) [libs]
  have alike : ModuleAlike here there := .mk ((edited.trans swapped).trans added)
  exact ⟨accepted, alike, unread_parts_ignored accepted alike⟩

end TypedContracts.Dump
