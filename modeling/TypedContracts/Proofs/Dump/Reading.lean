import TypedContracts.Dump.Module
import TypedContracts.Proofs.Result

/-!
What extraction reads, step by step: which nodes each step succeeds on, and with what. Only the parts
named here decide the result; everything else in a node is passed over.
-/
namespace TypedContracts.Dump
open Result

theorem itemsOf_ok_iff {what : String} {node : SExp} {items : List SExp} :
    itemsOf what node = .ok items ↔ node = .list items := by
  rw [itemsOf, ofOption_ok_iff]
  cases node <;> simp [SExp.asList]

theorem requiredSection_ok_iff {tag : String} {rows : List SExp} {parent value : SExp} :
    requiredSection tag rows parent = .ok value ↔ section? tag rows = some value := by
  rw [requiredSection, ofOption_ok_iff]

theorem section_of_known {tag : String} {value : SExp} {rest rows : List SExp} : section? tag
    (.list (.atom tag :: value :: rest) :: rows) = some value := by
  simp [section?, SExp.tag]

theorem section_of_foreign {tag : String} {row : SExp} {rows : List SExp}
    (foreign : row.tag ≠ some tag) : section? tag (row :: rows) = section? tag rows := by
  simp [section?, foreign]

theorem tag_iff {node : SExp} {tag : String} :
    node.tag = some tag ↔ ∃ more, node = .list (.atom tag :: more) := by
  unfold SExp.tag
  split <;> simp_all

theorem tagged_ok_iff {tag : String} {node value : SExp} :
    tagged tag node = .ok value ↔ ∃ more, node = .list (.atom tag :: value :: more) := by
  unfold tagged
  constructor
  · intro read
    split at read
    · rename_i here
      obtain ⟨parts, rfl⟩ := tag_iff.mp here
      cases parts with
      | nil => cases read
      | cons first more =>
        cases read
        exact ⟨more, rfl⟩
    · cases read
  · rintro ⟨more, rfl⟩
    simp [SExp.tag]

inductive Named (name : String) : SExp → Prop where
  | mk {kind : String} {inner outer : List SExp}
      (known : kind = "SimpleLocal" ∨ kind = "GlobalName") :
      Named name (.list (.atom "Ident" :: .list (.atom kind :: .atom name :: inner) :: outer))

theorem identName_ok_iff {node : SExp} {name : String} :
    identName node = .ok name ↔ Named name node := by
  constructor
  · intro read
    unfold identName at read
    split at read
    · cases read
    · split at read
      · split at read
        · rename_i known
          cases read
          exact .mk known
        · cases read
      · cases read
    · cases read
  · rintro ⟨known⟩
    simp [identName, known]

mutual
inductive Typed : SExp → Field → Prop where
  | primitive (name : String) (more : List SExp) :
      Typed (.list (.atom "PrimType" :: .atom name :: more)) (.ofPrimitive name)
  | address (more : List SExp) : Typed (.list (.atom "Address" :: more)) (.ofPrimitive addressType)
  | nullary {constructor : String} {ident : SExp} (named : Named constructor ident) :
      Typed (.list [.atom "ADT", ident]) (.ofApplication constructor [])
  | application {constructor : String} {ident : SExp} {nodes : List SExp} {types : List Field}
      (named : Named constructor ident) (each : AllTyped nodes types) (more : List SExp) :
      Typed (.list (.atom "ADT" :: ident :: .list nodes :: more)) (.ofApplication constructor types)
  | map {keyNode valueNode : SExp} {key value : Field} (first : Typed keyNode key)
      (second : Typed valueNode value) :
      Typed (.list [.atom "MapType", keyNode, valueNode]) (.ofMap key value)
inductive AllTyped : List SExp → List Field → Prop where
  | nil : AllTyped [] []
  | cons {node : SExp} {nodes : List SExp} {type : Field} {types : List Field}
      (first : Typed node type) (rest : AllTyped nodes types) :
      AllTyped (node :: nodes) (type :: types)
end

theorem read_typed :
    (∀ node f, fieldOf node = .ok f → Typed node f) ∧
      ∀ nodes fs, fieldsOf nodes = .ok fs → AllTyped nodes fs := by
  apply fieldOf.mutual_induct
  case case2 =>
    rintro name more _ ⟨⟩
    exact .primitive name more
  case case4 =>
    rintro more _ ⟨⟩
    exact .address more
  case case6 =>
    intro ident f read
    simp only [fieldOf, bind_ok_iff, pure_ok_iff] at read
    obtain ⟨constructor, named, rfl⟩ := read
    exact .nullary (identName_ok_iff.mp named)
  case case7 =>
    intro ident s more f read
    simp [fieldOf, bind_ok_iff] at read
  case case8 =>
    intro ident nodes more each f read
    simp only [fieldOf, bind_ok_iff, pure_ok_iff] at read
    obtain ⟨constructor, named, types, typed, rfl⟩ := read
    exact .application (identName_ok_iff.mp named) (each types typed) more
  case case9 =>
    intro keyNode valueNode keyTyped valueTyped f read
    simp only [fieldOf, bind_ok_iff, pure_ok_iff] at read
    obtain ⟨key, first, value, second, rfl⟩ := read
    exact .map (keyTyped key first) (valueTyped value second)
  case case12 =>
    rintro _ ⟨⟩
    exact .nil
  case case13 =>
    intro node rest nodeTyped restTyped fs read
    simp only [fieldsOf, bind_ok_iff, pure_ok_iff] at read
    obtain ⟨f, first, others, later, rfl⟩ := read
    exact .cons (nodeTyped f first) (restTyped others later)
  -- every other form is refused
  all_goals
    intros
    simp_all [fieldOf]

mutual
theorem typed_read : {node : SExp} → {f : Field} → Typed node f → fieldOf node = .ok f
  | _, _, .primitive name more => by rw [fieldOf]
  | _, _, .address more => by rw [fieldOf]
  | _, _, .nullary named => by
    rw [fieldOf, identName_ok_iff.mpr named]
    rfl
  | _, _, .application named each more => by
    rw [fieldOf, identName_ok_iff.mpr named, allTyped_read each]
    rfl
  | _, _, .map first second => by
    rw [fieldOf, typed_read first, typed_read second]
    rfl
theorem allTyped_read : {nodes : List SExp} → {fs : List Field} → AllTyped nodes fs →
    fieldsOf nodes = .ok fs
  | _, _, .nil => by rw [fieldsOf]
  | _, _, .cons first rest => by
    rw [fieldsOf, typed_read first, allTyped_read rest]
    rfl
end

theorem fieldOf_ok_iff {node : SExp} {f : Field} : fieldOf node = .ok f ↔ Typed node f :=
  ⟨read_typed.1 node f, typed_read⟩

theorem fieldsOf_ok_iff {nodes : List SExp} {fs : List Field} :
    fieldsOf nodes = .ok fs ↔ AllTyped nodes fs :=
  ⟨read_typed.2 nodes fs, allTyped_read⟩

inductive RowRead : SExp → Field → Prop where
  | mk {ident type : SExp} {name : String} {f : Field} (named : Named name ident)
      (typed : Typed type f) (more : List SExp) :
      RowRead (.list (ident :: type :: more)) (f.named name)

theorem namedField_ok_iff {row : SExp} {f : Field} : namedField row = .ok f ↔ RowRead row f := by
  constructor
  · intro read
    unfold namedField at read
    split at read
    · simp only [bind_ok_iff, pure_ok_iff, identName_ok_iff, fieldOf_ok_iff] at read
      obtain ⟨name, named, g, typed, rfl⟩ := read
      exact .mk named typed _
    · cases read
  · rintro ⟨named, typed, more⟩
    rw [namedField, identName_ok_iff.mpr named, fieldOf_ok_iff.mpr typed]
    rfl

theorem mapM_ok_iff_of {α : Type} {read : SExp → Result α} {Read : SExp → α → Prop}
    (each : ∀ {row a}, read row = .ok a ↔ Read row a) {rows : List SExp} {as : List α} :
    rows.mapM read = .ok as ↔ List.Forall₂ Read rows as := by
  simp only [mapM_ok_iff, each]

theorem namedFields_ok_iff {what : String} {node : SExp} {fs : List Field} :
    namedFields what node = .ok fs ↔ ∃ rows, node = .list rows ∧ List.Forall₂ RowRead rows fs := by
  simp only [namedFields, bind_ok_iff, itemsOf_ok_iff, mapM_ok_iff_of namedField_ok_iff]

inductive ComponentRead : SExp → Component → Prop where
  | mk {kind name : String} {ident : SExp} {rows : List SExp} {params : List Field}
      (named : Named name ident) (each : List.Forall₂ RowRead rows params)
      (kindMore nameMore paramsMore body : List SExp) :
      ComponentRead (.list (.list (.atom "comp_type" :: .atom kind :: kindMore) ::
        .list (.atom "comp_name" :: ident :: nameMore) ::
        .list (.atom "comp_params" :: .list rows :: paramsMore) :: body)) ⟨kind, name, params⟩

theorem asAtom_iff {node : SExp} {s : String} : node.asAtom = some s ↔ node = .atom s := by
  cases node <;> simp [SExp.asAtom]

theorem componentOf_ok_iff {row : SExp} {m : Component} :
    componentOf row = .ok m ↔ ComponentRead row m := by
  constructor
  · intro read
    unfold componentOf at read
    split at read
    · simp only [bind_ok_iff, pure_ok_iff, tagged_ok_iff, ofOption_ok_iff, asAtom_iff,
        identName_ok_iff, namedFields_ok_iff] at read
      obtain ⟨_, ⟨kindMore, rfl⟩, kind, rfl, _, ⟨nameMore, rfl⟩, name, named, _,
        ⟨paramsMore, rfl⟩, params, ⟨rows, rfl, each⟩, rfl⟩ := read
      exact .mk named each kindMore nameMore paramsMore _
    · cases read
  · rintro ⟨named, each, kindMore, nameMore, paramsMore, body⟩
    simp only [componentOf, bind_ok_iff, pure_ok_iff, tagged_ok_iff, ofOption_ok_iff, asAtom_iff,
      identName_ok_iff, namedFields_ok_iff]
    exact ⟨_, ⟨kindMore, rfl⟩, _, rfl, _, ⟨nameMore, rfl⟩, _, named, _, ⟨paramsMore, rfl⟩, _,
      ⟨_, rfl, each⟩, rfl⟩

inductive ClauseRead (typeName : String) : SExp → Constructor → Prop where
  | mk {rows nodes : List SExp} {ident : SExp} {name : String} {types : List Field}
      (nameRow : section? "cname" rows = some ident)
      (typesRow : section? "c_arg_types" rows = some (.list nodes)) (named : Named name ident)
      (each : AllTyped nodes types) : ClauseRead typeName (.list rows) ⟨typeName, name, types⟩

theorem constructorOf_ok_iff {typeName : String} {clause : SExp} {k : Constructor} :
    constructorOf typeName clause = .ok k ↔ ClauseRead typeName clause k := by
  simp only [constructorOf, bind_ok_iff, pure_ok_iff, itemsOf_ok_iff, requiredSection_ok_iff,
    identName_ok_iff, fieldsOf_ok_iff]
  constructor
  · rintro ⟨rows, rfl, ident, nameRow, _, typesRow, name, named, nodes, rfl, types, each, rfl⟩
    exact .mk nameRow typesRow named each
  · rintro ⟨nameRow, typesRow, named, each⟩
    exact ⟨_, rfl, _, nameRow, _, typesRow, _, named, _, rfl, _, each, rfl⟩

inductive EntryRead : SExp → List Constructor → Prop where
  | value (more : List SExp) : EntryRead (.list (.atom "LibVar" :: more)) []
  | type {typeName : String} {ident : SExp} {clauses : List SExp} {ks : List Constructor}
      (named : Named typeName ident) (each : List.Forall₂ (ClauseRead typeName) clauses ks)
      (more : List SExp) : EntryRead (.list (.atom "LibTyp" :: ident :: .list clauses :: more)) ks

theorem constructorsOfEntry_ok_iff {entry : SExp} {ks : List Constructor} :
    constructorsOfEntry entry = .ok ks ↔ EntryRead entry ks := by
  constructor
  · intro read
    unfold constructorsOfEntry at read
    split at read
    · cases read
      exact .value _
    · simp only [bind_ok_iff, identName_ok_iff, itemsOf_ok_iff,
        mapM_ok_iff_of constructorOf_ok_iff] at read
      obtain ⟨typeName, named, clauses, rfl, each⟩ := read
      exact .type named each _
    · cases read
    · cases read
  · rintro (⟨more⟩ | ⟨named, each, more⟩)
    · rw [constructorsOfEntry]
    · simp only [constructorsOfEntry, bind_ok_iff, identName_ok_iff, itemsOf_ok_iff,
        mapM_ok_iff_of constructorOf_ok_iff]
      exact ⟨_, named, _, rfl, each⟩

inductive LibrariesRead : SExp → List Constructor → Prop where
  | none : LibrariesRead (.list []) []
  | first {rows entries : List SExp} {groups : List (List Constructor)}
      (entriesRow : section? "lentries" rows = some (.list entries))
      (each : List.Forall₂ EntryRead entries groups) (more : List SExp) :
      LibrariesRead (.list (.list rows :: more)) groups.flatten

theorem constructorsOf_ok_iff {libs : SExp} {ks : List Constructor} :
    constructorsOf libs = .ok ks ↔ LibrariesRead libs ks := by
  simp only [constructorsOf, bind_ok_iff, itemsOf_ok_iff]
  constructor
  · rintro ⟨items, rfl, read⟩
    cases items with
    | nil =>
      cases read
      exact .none
    | cons library more =>
      simp only [bind_ok_iff, pure_ok_iff, itemsOf_ok_iff, requiredSection_ok_iff,
        mapM_ok_iff_of constructorsOfEntry_ok_iff] at read
      obtain ⟨rows, rfl, _, entriesRow, entries, rfl, groups, each, rfl⟩ := read
      exact .first entriesRow each more
  · rintro (_ | ⟨entriesRow, each, more⟩)
    · exact ⟨[], rfl, rfl⟩
    · refine ⟨_, rfl, ?_⟩
      simp only [bind_ok_iff, pure_ok_iff, itemsOf_ok_iff, requiredSection_ok_iff,
        mapM_ok_iff_of constructorsOfEntry_ok_iff]
      exact ⟨_, rfl, _, entriesRow, _, rfl, _, each, rfl⟩

inductive Listed (rows : List SExp) : List Constructor → Prop where
  | absent (none : section? "libs" rows = none) : Listed rows []
  | present {libs : SExp} {ks : List Constructor} (here : section? "libs" rows = some libs)
      (read : LibrariesRead libs ks) : Listed rows ks

inductive ContractRead (ks : List Constructor) : List SExp → Contract → Prop where
  | mk {rows paramRows fieldRows componentRows : List SExp} {ident : SExp} {name : String}
      {params fields : List Field} {components : List Component}
      (nameRow : section? "cname" rows = some ident) (named : Named name ident)
      (paramsRow : section? "cparams" rows = some (.list paramRows))
      (eachParam : List.Forall₂ RowRead paramRows params)
      (fieldsRow : section? "cfields" rows = some (.list fieldRows))
      (eachField : List.Forall₂ RowRead fieldRows fields)
      (componentsRow : section? "ccomps" rows = some (.list componentRows))
      (eachComponent : List.Forall₂ ComponentRead componentRows components) :
      ContractRead ks rows ⟨name, nonEmpty params, fields, components, ks⟩

inductive ModuleRead : SExp → Contract → Prop where
  | mk {rows contr : List SExp} {ks : List Constructor} {c : Contract}
      (contrRow : section? "contr" rows = some (.list contr)) (listed : Listed rows ks)
      (read : ContractRead ks contr c) : ModuleRead (.list rows) c

def librariesOf (rows : List SExp) : Result (List Constructor) :=
  match section? "libs" rows with
  | some libs => constructorsOf libs
  | none => pure []

def contractWith (ks : List Constructor) (rows : List SExp) (contr : SExp) : Result Contract := do
  let name ← identName (← requiredSection "cname" rows contr)
  let params ← namedFields "cparams" (← requiredSection "cparams" rows contr)
  let fields ← namedFields "cfields" (← requiredSection "cfields" rows contr)
  let componentRows ← itemsOf "ccomps" (← requiredSection "ccomps" rows contr)
  let components ← componentRows.mapM componentOf
  return ⟨name, nonEmpty params, fields, components, ks⟩

theorem librariesOf_ok_iff {rows : List SExp} {ks : List Constructor} :
    librariesOf rows = .ok ks ↔ Listed rows ks := by
  unfold librariesOf
  constructor
  · intro read
    split at read
    · exact .present ‹_› (constructorsOf_ok_iff.mp read)
    · cases read
      exact .absent ‹_›
  · rintro (none | ⟨here, read⟩)
    · simp only [none, pure, Except.pure]
    · simp only [here, constructorsOf_ok_iff.mpr read]

theorem contractWith_ok_iff {ks : List Constructor} {rows : List SExp} {contr : SExp}
    {c : Contract} : contractWith ks rows contr = .ok c ↔ ContractRead ks rows c := by
  simp only [contractWith, bind_ok_iff, pure_ok_iff, itemsOf_ok_iff, requiredSection_ok_iff,
    identName_ok_iff, namedFields_ok_iff, mapM_ok_iff_of componentOf_ok_iff]
  constructor
  · rintro ⟨_, nameRow, name, named, _, paramsRow, params, ⟨_, rfl, eachParam⟩, _, fieldsRow,
      fields, ⟨_, rfl, eachField⟩, _, componentsRow, _, rfl, components, eachComponent, rfl⟩
    exact .mk nameRow named paramsRow eachParam fieldsRow eachField componentsRow eachComponent
  · rintro ⟨nameRow, named, paramsRow, eachParam, fieldsRow, eachField, componentsRow,
      eachComponent⟩
    exact ⟨_, nameRow, _, named, _, paramsRow, _, ⟨_, rfl, eachParam⟩, _, fieldsRow, _,
      ⟨_, rfl, eachField⟩, _, componentsRow, _, rfl, _, eachComponent, rfl⟩

theorem contractOf_list (rows : List SExp) : contractOf (.list rows) = (do
    let contr ← requiredSection "contr" rows (.list rows)
    let contrRows ← itemsOf "contr" contr
    let ks ← librariesOf rows
    contractWith ks contrRows contr) := by
  change (requiredSection "contr" rows (.list rows) >>= fun contr => _) = _
  refine bind_congr fun contr => bind_congr fun contrRows => ?_
  unfold librariesOf
  cases section? "libs" rows <;> rfl

theorem contractOf_ok_iff {module : SExp} {c : Contract} :
    contractOf module = .ok c ↔ ModuleRead module c := by
  constructor
  · intro read
    obtain ⟨rows, here, -⟩ := bind_ok_iff.mp read
    obtain rfl := itemsOf_ok_iff.mp here
    simp only [contractOf_list, bind_ok_iff, requiredSection_ok_iff, itemsOf_ok_iff,
      librariesOf_ok_iff, contractWith_ok_iff] at read
    obtain ⟨_, contrRow, contr, rfl, ks, listed, parts⟩ := read
    exact .mk contrRow listed parts
  · rintro ⟨contrRow, listed, parts⟩
    simp only [contractOf_list, bind_ok_iff, requiredSection_ok_iff, itemsOf_ok_iff,
      librariesOf_ok_iff, contractWith_ok_iff]
    exact ⟨_, contrRow, _, rfl, _, listed, parts⟩

end TypedContracts.Dump
