import TypedContracts.Cache.Entry

/-!
Contracts as text for people to read.
-/
namespace TypedContracts.Listing

def lineOf (parts : List String) : String := String.join parts ++ "\n"

def slots (fields : List Field) : String :=
  String.intercalate ", " (fields.map fun f => f.name ++ ": " ++ f.type)

def params : Option (List Field) → String
  | none => "(none)"
  | some fields => slots fields

def kind (c : Component) : String := if c.isProcedure then "procedure" else "transition"

def component (c : Component) : String :=
  lineOf ["  ", kind c, " ", c.name, "(", slots c.params, ")"]

def constructor (c : Constructor) : String :=
  lineOf ["  type ", c.typeName, " = ", String.intercalate " " (c.name :: Field.types c.arguments)]

def contract (c : Contract) : String :=
  lineOf ["contract ", c.name] ++ lineOf ["  params: ", params c.params] ++
    String.join (c.fields.map fun f => lineOf ["  field ", f.name, " : ", f.type]) ++
    String.join (c.components.map component) ++ String.join (c.constructors.map constructor)

def entries (named : Entries) : String :=
  String.join (named.map fun e => lineOf [e.1, "  ", e.2.path])

end TypedContracts.Listing
