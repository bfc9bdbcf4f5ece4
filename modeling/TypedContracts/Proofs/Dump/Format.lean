import TypedContracts.Dump.Module
import TypedContracts.Proofs.Model.Canonical
import TypedContracts.Proofs.Result

/-!
What the dump of a contract looks like, as relations between parts of the model and nodes. `Note`
says which trees may stand where nothing is read: behind a name, behind a type, behind the
parameters of a component, in value entries and in rows of other tags. A type text is nowhere
written, only the structure behind it.
-/
namespace TypedContracts.Dump
variable (Note : SExp → Prop)

inductive IdentNode (name : String) : SExp → Prop where
  | mk {note : SExp} (allowed : Note note) :
      IdentNode name (.list [.atom "Ident", .list [.atom "SimpleLocal", .atom name], note])

mutual
inductive TypeNode : Shape → SExp → Prop where
  | primitive (name : String) :
      TypeNode (.primitive name) (.list [.atom "PrimType", .atom name])
  | application {constructor : String} {ident : SExp} {arguments : List Field}
      {nodes : List SExp} (named : IdentNode Note constructor ident)
      (types : TypeNodes arguments nodes) :
      TypeNode (.adt constructor arguments) (.list [.atom "ADT", ident, .list nodes])
  | map {key value : Field} {keyNode valueNode : SExp} (first : TypeNode key.shape keyNode)
      (second : TypeNode value.shape valueNode) :
      TypeNode (.map key value) (.list [.atom "MapType", keyNode, valueNode])
inductive TypeNodes : List Field → List SExp → Prop where
  | nil : TypeNodes [] []
  | cons {field : Field} {fields : List Field} {node : SExp} {nodes : List SExp}
      (first : TypeNode field.shape node) (rest : TypeNodes fields nodes) :
      TypeNodes (field :: fields) (node :: nodes)
end

inductive FieldRow (f : Field) : SExp → Prop where
  | mk {ident type : SExp} {more : List SExp} (named : IdentNode Note f.name ident)
      (typed : TypeNode Note f.shape type) (allowed : ∀ n ∈ more, Note n) :
      FieldRow f (.list (ident :: type :: more))

inductive ComponentRow (m : Component) : SExp → Prop where
  | mk {ident : SExp} {rows more : List SExp} (named : IdentNode Note m.name ident)
      (params : List.Forall₂ (FieldRow Note) m.params rows) (allowed : ∀ n ∈ more, Note n) :
      ComponentRow m (.list (.list [.atom "comp_type", .atom m.kind] ::
        .list [.atom "comp_name", ident] :: .list [.atom "comp_params", .list rows] :: more))

inductive ClauseNode (k : Constructor) : SExp → Prop where
  | mk {ident : SExp} {nodes : List SExp} (named : IdentNode Note k.name ident)
      (types : TypeNodes Note k.arguments nodes) :
      ClauseNode k (.list [.list [.atom "cname", ident], .list [.atom "c_arg_types", .list nodes]])

/-- Type entries that list the constructors in order, with value entries between them. The name of a
type without constructors is nowhere in the contract. -/
inductive EntryNodes : List Constructor → List SExp → Prop where
  | nil : EntryNodes [] []
  | value {constructors : List Constructor} {parts nodes : List SExp}
      (allowed : ∀ n ∈ parts, Note n) (rest : EntryNodes constructors nodes) :
      EntryNodes constructors (.list (.atom "LibVar" :: parts) :: nodes)
  | type {typeName : String} {ident : SExp} {group constructors : List Constructor}
      {clauses nodes : List SExp} (named : IdentNode Note typeName ident)
      (same : ∀ k ∈ group, k.typeName = typeName) (unlisted : group = [] → Note (.atom typeName))
      (listed : List.Forall₂ (ClauseNode Note) group clauses)
      (rest : EntryNodes constructors nodes) :
      EntryNodes (group ++ constructors)
        (.list [.atom "LibTyp", ident, .list clauses] :: nodes)

/-- The known rows in order, with rows of other tags between them. -/
inductive Among (tags : List String) : List SExp → List SExp → Prop where
  | nil : Among tags [] []
  | known {row : SExp} {known all : List SExp} (rest : Among tags known all) :
      Among tags (row :: known) (row :: all)
  | other {row : SExp} {known all : List SExp} (allowed : Note row)
      (foreign : ∀ tag ∈ row.tag, tag ∉ tags) (rest : Among tags known all) :
      Among tags known (row :: all)

inductive LibrariesNode (constructors : List Constructor) : SExp → Prop where
  | none (empty : constructors = []) : LibrariesNode constructors (.list [])
  | one {entries rows : List SExp} (listed : EntryNodes Note constructors entries)
      (among : Among Note ["lentries"] [.list [.atom "lentries", .list entries]] rows) :
      LibrariesNode constructors (.list [.list rows])

def contractTags : List String := ["cname", "cparams", "cfields", "ccomps"]

inductive ContractNode (c : Contract) : SExp → Prop where
  | mk {ident : SExp} {params fields components rows : List SExp}
      (named : IdentNode Note c.name ident)
      (paramRows : List.Forall₂ (FieldRow Note) c.paramList params)
      (fieldRows : List.Forall₂ (FieldRow Note) c.fields fields)
      (componentRows : List.Forall₂ (ComponentRow Note) c.components components)
      (among : Among Note contractTags
        [.list [.atom "cname", ident], .list [.atom "cparams", .list params],
          .list [.atom "cfields", .list fields], .list [.atom "ccomps", .list components]] rows) :
      ContractNode c (.list rows)

def moduleTags : List String := ["libs", "contr"]

inductive ModuleNode (c : Contract) : SExp → Prop where
  | mk {libs contr : SExp} {rows : List SExp} (libraries : LibrariesNode Note c.constructors libs)
      (contract : ContractNode Note c contr)
      (among : Among Note moduleTags [.list [.atom "libs", libs], .list [.atom "contr", contr]]
        rows) : ModuleNode c (.list rows)

end TypedContracts.Dump
