import TypedContracts.Proofs.Dump.Extraction

/-!
Every canonical contract has a dump, and a dump with plain names and legible notes is legible as a
whole, so that its text can be read back.
-/
namespace TypedContracts.Dump
open SExp

theorem ident_exists (name : String) : ∃ node, IdentNode Legible name node := by
  have nothing : Legible (.list []) := trivial
  exact ⟨_, .mk nothing⟩

mutual
theorem type_exists : (shape : Shape) → shape.Canonical → ∃ node, TypeNode Legible shape node
  | .unknown, canonical => canonical.elim
  | .primitive name, _ => ⟨_, .primitive name⟩
  | .adt constructor arguments, canonical => by
    obtain ⟨ident, named⟩ := ident_exists constructor
    obtain ⟨nodes, types⟩ := types_exist arguments canonical
    exact ⟨_, .application named types⟩
  | .map key value, canonical => by
    obtain ⟨keyNode, first⟩ := slot_exists key canonical.1
    obtain ⟨valueNode, second⟩ := slot_exists value canonical.2
    exact ⟨_, .map first second⟩
theorem slot_exists : (field : Field) → field.Positional →
    ∃ node, TypeNode Legible field.shape node
  | ⟨_, _, shape⟩, positional => type_exists shape positional.2.2
theorem types_exist : (fields : List Field) → Field.AllPositional fields →
    ∃ nodes, TypeNodes Legible fields nodes
  | [], _ => ⟨[], .nil⟩
  | field :: rest, positional => by
    obtain ⟨node, first⟩ := slot_exists field positional.1
    obtain ⟨nodes, later⟩ := types_exist rest positional.2
    exact ⟨node :: nodes, .cons first later⟩
end

theorem rows_exist {α : Type} {Row : α → SExp → Prop} {xs : List α}
    (each : ∀ x ∈ xs, ∃ row, Row x row) : ∃ rows, List.Forall₂ Row xs rows := by
  induction xs with
  | nil => exact ⟨[], .nil⟩
  | cons x xs ih =>
    obtain ⟨row, first⟩ := each x List.mem_cons_self
    obtain ⟨rows, rest⟩ := ih fun y member => each y (List.mem_cons_of_mem x member)
    exact ⟨row :: rows, .cons first rest⟩

theorem fields_exist {fs : List Field} (canonical : ∀ f ∈ fs, f.Canonical) :
    ∃ rows, List.Forall₂ (FieldRow Legible) fs rows := by
  refine rows_exist fun f member => ?_
  obtain ⟨ident, named⟩ := ident_exists f.name
  obtain ⟨type, typed⟩ := type_exists f.shape (canonical f member).2
  have nothing : ∀ n ∈ ([] : List SExp), Legible n := by simp
  exact ⟨_, .mk named typed nothing⟩

theorem component_exists {m : Component} (canonical : ∀ f ∈ m.params, f.Canonical) :
    ∃ row, ComponentRow Legible m row := by
  obtain ⟨ident, named⟩ := ident_exists m.name
  obtain ⟨rows, params⟩ := fields_exist canonical
  have nothing : ∀ n ∈ ([] : List SExp), Legible n := by simp
  exact ⟨_, .mk named params nothing⟩

theorem entries_exist {constructors : List Constructor}
    (positional : ∀ k ∈ constructors, Field.AllPositional k.arguments) :
    ∃ entries, EntryNodes Legible constructors entries := by
  induction constructors with
  | nil => exact ⟨[], .nil⟩
  | cons k constructors ih =>
    obtain ⟨nodes, rest⟩ := ih fun j member => positional j (List.mem_cons_of_mem k member)
    obtain ⟨typeIdent, typeNamed⟩ := ident_exists k.typeName
    obtain ⟨ident, named⟩ := ident_exists k.name
    obtain ⟨types, written⟩ := types_exist k.arguments (positional k List.mem_cons_self)
    have alone : ∀ j ∈ [k], j.typeName = k.typeName := by simp
    have unlisted : [k] = [] → Legible (.atom k.typeName) := by simp
    exact ⟨_, .type typeNamed alone unlisted (.cons (.mk named written) .nil) rest⟩

theorem among_all {Note : SExp → Prop} {tags : List String} (rows : List SExp) :
    Among Note tags rows rows := by
  induction rows with
  | nil => exact .nil
  | cons row rows ih => exact .known ih

theorem module_exists {c : Contract} (canonical : c.Canonical) :
    ∃ module, ModuleNode Legible c module := by
  obtain ⟨entries, listed⟩ := entries_exist canonical.constructors
  obtain ⟨ident, named⟩ := ident_exists c.name
  obtain ⟨params, paramRows⟩ := fields_exist canonical.params
  obtain ⟨fields, fieldRows⟩ := fields_exist canonical.fields
  obtain ⟨components, componentRows⟩ := rows_exist fun m member =>
    component_exists (canonical.components m member)
  have libraries := LibrariesNode.one listed (among_all _)
  have contract := ContractNode.mk named paramRows fieldRows componentRows (among_all _)
  exact ⟨_, .mk libraries contract (among_all _)⟩

theorem word_legible {name : String} (plain : Word name.toList) : Legible (.atom name) := by
  have bare : needsQuotes name.toList = false := by
    have delimiters := fun c member => (not_delimiter_iff c).mpr (plain.2 c member)
    simpa [needsQuotes, plain.1] using delimiters
  intro quotes
  rw [bare] at quotes
  cases quotes

theorem tag_legible {tag : String} (bare : needsQuotes tag.toList = false) :
    Legible (.atom tag) := by
  intro quotes
  rw [bare] at quotes
  cases quotes

theorem ident_legible {name : String} (legible : Legible (.atom name)) {node : SExp}
    (written : IdentNode Legible name node) : Legible node := by
  cases written with
  | mk allowed =>
    have ident : Legible (.atom "Ident") := tag_legible (by decide)
    have simple : Legible (.atom "SimpleLocal") := tag_legible (by decide)
    exact ⟨ident, ⟨simple, legible, trivial⟩, allowed, trivial⟩

mutual
theorem type_legible : (shape : Shape) → (∀ w ∈ shape.words, Legible (.atom w)) → ∀ (node : SExp),
    TypeNode Legible shape node → Legible node
  | .unknown, _ => by
    intro node written
    cases written
  | .primitive name, words => by
    intro node written
    cases written with
    | primitive =>
      have tag : Legible (.atom "PrimType") := tag_legible (by decide)
      exact ⟨tag, words name (by simp [Shape.words]), trivial⟩
  | .adt constructor arguments, words => by
    intro node written
    cases written with
    | application named types =>
      have tag : Legible (.atom "ADT") := tag_legible (by decide)
      have first := ident_legible (words constructor (by simp [Shape.words])) named
      have rest := types_legible arguments
        (fun w member => words w (by simp [Shape.words, member])) _ types
      exact ⟨tag, first, rest, trivial⟩
  | .map key value, words => by
    intro node written
    cases written with
    | map first second =>
      have tag : Legible (.atom "MapType") := tag_legible (by decide)
      have keyLegible := slot_legible key
        (fun w member => words w (by simp [Shape.words, member])) _ first
      have valueLegible := slot_legible value
        (fun w member => words w (by simp [Shape.words, member])) _ second
      exact ⟨tag, keyLegible, valueLegible, trivial⟩
theorem slot_legible : (field : Field) → (∀ w ∈ field.typeWord, Legible (.atom w)) →
    ∀ (node : SExp), TypeNode Legible field.shape node → Legible node
  | ⟨_, _, shape⟩, words => type_legible shape words
theorem types_legible : (fields : List Field) → (∀ w ∈ Field.typeWords fields, Legible (.atom w)) →
    ∀ (nodes : List SExp), TypeNodes Legible fields nodes → LegibleItems nodes
  | [], _ => by
    intro nodes written
    cases written with
    | nil => trivial
  | field :: fields, words => by
    intro nodes written
    cases written with
    | cons first rest =>
      have here := slot_legible field
        (fun w member => words w (by simp [Field.typeWords, member])) _ first
      have later := types_legible fields
        (fun w member => words w (by simp [Field.typeWords, member])) _ rest
      exact ⟨here, later⟩
end

theorem row_legible (tag : String) (bare : needsQuotes tag.toList = false) {value : SExp}
    (legible : Legible value) : Legible (.list [.atom tag, value]) :=
  ⟨tag_legible bare, legible, trivial⟩

theorem rows_legible {α : Type} {Row : α → SExp → Prop} {xs : List α} {rows : List SExp}
    (written : List.Forall₂ Row xs rows) (each : ∀ x ∈ xs, ∀ row, Row x row → Legible row) :
    Legible (.list rows) := by
  change LegibleItems rows
  induction written with
  | nil => trivial
  | cons first rest ih =>
    refine ⟨each _ List.mem_cons_self _ first, ih ?_⟩
    exact fun x member => each x (List.mem_cons_of_mem _ member)

theorem field_legible {f : Field} (words : ∀ w ∈ f.words, Legible (.atom w)) {row : SExp}
    (written : FieldRow Legible f row) : Legible row := by
  cases written with
  | mk named typed allowed =>
    have name := ident_legible (words f.name (by simp [Field.words])) named
    have type := type_legible f.shape
      (fun w member => words w (by simp [Field.words, member])) _ typed
    exact ⟨name, type, (legibleItems_iff _).mpr allowed⟩

theorem fields_legible {fs : List Field} (words : ∀ w ∈ fs.flatMap Field.words, Legible (.atom w))
    {rows : List SExp} (written : List.Forall₂ (FieldRow Legible) fs rows) :
    Legible (.list rows) := by
  refine rows_legible written fun f member row => field_legible fun w word => ?_
  exact words w (List.mem_flatMap.mpr ⟨f, member, word⟩)

theorem component_legible {m : Component} (words : ∀ w ∈ m.words, Legible (.atom w)) {row : SExp}
    (written : ComponentRow Legible m row) : Legible row := by
  cases written with
  | mk named params allowed =>
    have kind := row_legible "comp_type" (by decide)
      (words m.kind (by simp [Component.words]))
    have name := row_legible "comp_name" (by decide)
      (ident_legible (words m.name (by simp [Component.words])) named)
    have rows := row_legible "comp_params" (by decide)
      (fields_legible (fun w member => words w (by simp_all [Component.words])) params)
    exact ⟨kind, name, rows, (legibleItems_iff _).mpr allowed⟩

theorem clause_legible {k : Constructor} (words : ∀ w ∈ k.words, Legible (.atom w)) {clause : SExp}
    (written : ClauseNode Legible k clause) : Legible clause := by
  cases written with
  | @mk ident nodes named types =>
    have name := row_legible "cname" (by decide)
      (ident_legible (words k.name (by simp [Constructor.words])) named)
    have typesLegible : Legible (.list nodes) := types_legible k.arguments
      (fun w member => words w (by simp [Constructor.words, member])) _ types
    have arguments := row_legible "c_arg_types" (by decide) typesLegible
    exact ⟨name, arguments, trivial⟩

theorem entries_legible {constructors : List Constructor}
    (words : ∀ w ∈ constructors.flatMap Constructor.words, Legible (.atom w)) {entries : List SExp}
    (written : EntryNodes Legible constructors entries) : LegibleItems entries := by
  induction written with
  | nil => trivial
  | value allowed rest ih =>
    have tag : Legible (.atom "LibVar") := tag_legible (by decide)
    exact ⟨⟨tag, (legibleItems_iff _).mpr allowed⟩, ih words⟩
  | @type typeName ident group constructors clauses nodes named same unlisted listed rest ih =>
    have typeLegible : Legible (.atom typeName) := by
      cases group with
      | nil => exact unlisted rfl
      | cons k group =>
        rw [← same k List.mem_cons_self]
        exact words k.typeName (by simp [Constructor.words])
    have tag : Legible (.atom "LibTyp") := tag_legible (by decide)
    have clausesLegible : Legible (.list clauses) := by
      refine rows_legible listed fun k member clause => clause_legible fun w word => ?_
      exact words w (List.mem_flatMap.mpr ⟨k, List.mem_append_left _ member, word⟩)
    have later := ih fun w member => words w (by simp_all)
    exact ⟨⟨tag, ident_legible typeLegible named, clausesLegible, trivial⟩, later⟩

theorem among_legible {tags : List String} {known all : List SExp}
    (among : Among Legible tags known all) (legible : LegibleItems known) : LegibleItems all := by
  induction among with
  | nil => trivial
  | known rest ih => exact ⟨legible.1, ih legible.2⟩
  | other allowed foreign rest ih => exact ⟨allowed, ih legible⟩

theorem libraries_legible {constructors : List Constructor}
    (words : ∀ w ∈ constructors.flatMap Constructor.words, Legible (.atom w)) {node : SExp}
    (written : LibrariesNode Legible constructors node) : Legible node := by
  cases written with
  | none empty => trivial
  | @one entries rows listed among =>
    have inner : Legible (.list entries) := entries_legible words listed
    have row := row_legible "lentries" (by decide) inner
    exact ⟨among_legible among ⟨row, trivial⟩, trivial⟩

theorem contract_legible {c : Contract} (words : ∀ w ∈ c.words, Legible (.atom w)) {node : SExp}
    (written : ContractNode Legible c node) : Legible node := by
  cases written with
  | @mk ident paramNodes fieldNodes componentNodes rows named paramRows fieldRows componentRows
      among =>
    have name := row_legible "cname" (by decide)
      (ident_legible (words c.name (by simp [Contract.words])) named)
    have params := row_legible "cparams" (by decide)
      (fields_legible (fun w member => words w (by simp_all [Contract.words])) paramRows)
    have fields := row_legible "cfields" (by decide)
      (fields_legible (fun w member => words w (by simp_all [Contract.words])) fieldRows)
    have componentsLegible : Legible (.list componentNodes) := by
      refine rows_legible componentRows fun m member row => component_legible fun w word => ?_
      have inComponents : w ∈ c.components.flatMap Component.words :=
        List.mem_flatMap.mpr ⟨m, member, word⟩
      exact words w (by simp [Contract.words, inComponents])
    have components := row_legible "ccomps" (by decide) componentsLegible
    exact among_legible among ⟨name, params, fields, components, trivial⟩

theorem module_legible {c : Contract} (words : ∀ w ∈ c.words, Legible (.atom w)) {module : SExp}
    (written : ModuleNode Legible c module) : Legible module := by
  cases written with
  | mk libraries contract among =>
    have libs := row_legible "libs" (by decide)
      (libraries_legible (fun w member => words w (by simp_all [Contract.words])) libraries)
    have contr := row_legible "contr" (by decide) (contract_legible words contract)
    exact among_legible among ⟨libs, contr, trivial⟩

/-- No parameter, field, component or constructor is lost, duplicated, reordered or renamed. -/
theorem extraction_undoes_dump (c : Contract) (canonical : c.Canonical) :
    (∃ module, ModuleNode Legible c module) ∧
    (∀ Note module, ModuleNode Note c module → contractOf module = .ok c) ∧
    ((∀ w ∈ c.words, Word w.toList) →
      ∀ module, ModuleNode Legible c module → read module.render = .ok c) := by
  refine ⟨module_exists canonical, fun _ _ written => module_extracted canonical written, ?_⟩
  intro plain module written
  have legible := module_legible (fun w member => word_legible (plain w member)) written
  have parsed : parse module.render = .ok module := by
    rw [parse, parse_render module legible]
    rfl
  rw [read, parsed]
  exact module_extracted canonical written

def registry : Contract where
  name := "Registry"
  params := some [⟨"owner", "ByStr20", .primitive "ByStr20"⟩]
  fields := [⟨"accounts", "Map ByStr20 (Option Uint128)",
    .map ⟨"", "ByStr20", .primitive "ByStr20"⟩
      ⟨"", "Option Uint128", .adt "Option" [⟨"", "Uint128", .primitive "Uint128"⟩]⟩⟩]
  components := [⟨"transition", "Open", []⟩]
  constructors := [⟨"Access", "Granted", [⟨"", "ByStr20", .primitive "ByStr20"⟩]⟩,
    ⟨"Access", "Denied", []⟩]

def simpleIdent (name : String) : SExp :=
  .list [.atom "Ident", .list [.atom "SimpleLocal", .atom name], .list [.atom "line", .atom "1"]]

def registryDump : SExp :=
  let address : SExp := .list [.atom "PrimType", .atom "ByStr20"]
  let amount : SExp := .list [.atom "PrimType", .atom "Uint128"]
  let balance : SExp := .list [.atom "ADT", simpleIdent "Option", .list [amount]]
  let granted : SExp := .list [.list [.atom "cname", simpleIdent "Granted"],
    .list [.atom "c_arg_types", .list [address]]]
  let denied : SExp := .list [.list [.atom "cname", simpleIdent "Denied"],
    .list [.atom "c_arg_types", .list []]]
  let entries : SExp := .list [.list [.atom "LibVar", .atom "zero"],
    .list [.atom "LibTyp", simpleIdent "Access", .list [granted, denied]]]
  let contr : SExp := .list [
    .list [.atom "cname", simpleIdent "Registry"],
    .list [.atom "cparams", .list [.list [simpleIdent "owner", address]]],
    .list [.atom "cfields", .list [.list [simpleIdent "accounts",
      .list [.atom "MapType", address, balance], .list [.atom "Emp"]]]],
    .list [.atom "ccomps", .list [.list [.list [.atom "comp_type", .atom "transition"],
      .list [.atom "comp_name", simpleIdent "Open"], .list [.atom "comp_params", .list []]]]]]
  .list [.list [.atom "smver", .atom "0"],
    .list [.atom "libs", .list [.list [.list [.atom "lentries", entries]]]],
    .list [.atom "contr", contr]]

theorem registry_canonical : registry.Canonical where
  params_present := by decide
  params := by
    simp [registry, Contract.paramList, Field.Canonical, Shape.Canonical, Shape.signature]
  fields := by
    simp [registry, Field.Canonical, Shape.Canonical, Field.Positional, Field.AllPositional,
      Shape.signature, Field.signatures, Field.bracketed, Shape.isNested]
  components := by simp [registry]
  constructors := by
    simp [registry, Field.AllPositional, Field.Positional, Shape.Canonical, Shape.signature]

theorem simpleIdent_named (name : String) : IdentNode Legible name (simpleIdent name) := by
  have tag : Legible (.atom "line") := tag_legible (by decide)
  have number : Legible (.atom "1") := tag_legible (by decide)
  have note : Legible (.list [.atom "line", .atom "1"]) := ⟨tag, number, trivial⟩
  exact .mk note

theorem registry_dumped : ModuleNode Legible registry registryDump := by
  have nothing : ∀ n ∈ ([] : List SExp), Legible n := by simp
  have initialiser : ∀ n ∈ [SExp.list [.atom "Emp"]], Legible n := by
    have bare : Legible (.atom "Emp") := tag_legible (by decide)
    simpa using ⟨bare, trivial⟩
  have zero : ∀ n ∈ [SExp.atom "zero"], Legible n := by
    have bare : Legible (.atom "zero") := tag_legible (by decide)
    simpa using bare
  have version : Legible (.list [.atom "smver", .atom "0"]) :=
    row_legible "smver" (by decide) (tag_legible (by decide))
  have access : ∀ k ∈ registry.constructors, k.typeName = "Access" := by simp [registry]
  refine .mk (.one (.value zero (.type (simpleIdent_named _) access (by simp [registry]) ?_ .nil))
    (.known .nil)) (.mk (simpleIdent_named _) ?_ ?_ ?_ (.known (.known (.known (.known .nil)))))
    (.other version (by decide) (.known (.known .nil)))
  · exact .cons (.mk (simpleIdent_named _) (.cons (.primitive _) .nil))
      (.cons (.mk (simpleIdent_named _) .nil) .nil)
  · exact .cons (.mk (simpleIdent_named _) (.primitive _) nothing) .nil
  · refine .cons (.mk (simpleIdent_named _) (.map (.primitive _) ?_) initialiser) .nil
    exact .application (simpleIdent_named _) (.cons (.primitive _) .nil)
  · exact .cons (.mk (simpleIdent_named _) .nil nothing) .nil

theorem registry_words : ∀ w ∈ registry.words, Word w.toList := by
  have all : registry.words.all (fun w => !w.toList.isEmpty &&
      w.toList.all fun c => !isDelimiter c) = true := by decide
  intro w member
  have here := List.all_eq_true.mp all w member
  simpa [Word, not_delimiter_iff] using here

theorem registry_extracted :
    contractOf registryDump = .ok registry ∧ read registryDump.render = .ok registry := by
  have whole := extraction_undoes_dump registry registry_canonical
  exact ⟨whole.2.1 Legible registryDump registry_dumped,
    whole.2.2 registry_words registryDump registry_dumped⟩

end TypedContracts.Dump
