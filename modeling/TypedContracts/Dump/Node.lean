import TypedContracts.Error

/-!
Taking apart the nodes of a module dump: identifiers, tagged values and rows that are looked up by
their tag. Each step checks the tag it expects and fails with the node at fault.
-/
namespace TypedContracts.Dump

def itemsOf (what : String) (node : SExp) : Result (List SExp) :=
  Result.ofOption (.grammar (.notList what) node) node.asList

def identName (node : SExp) : Result String :=
  match node with
  | .list [.atom "Ident"] => .error (.grammar .identWithoutName node)
  | .list (.atom "Ident" :: inner :: _) =>
    match inner with
    | .list (.atom tag :: .atom name :: _) =>
      if tag = "SimpleLocal" ∨ tag = "GlobalName" then .ok name
      else .error (.grammar .expectedLocalName inner)
    | _ => .error (.grammar .expectedLocalName inner)
  | _ => .error (.grammar .expectedIdent node)

def section? (tag : String) (rows : List SExp) : Option SExp :=
  match rows.find? (·.tag == some tag) with
  | some (.list (_ :: value :: _)) => some value
  | _ => none

def requiredSection (tag : String) (rows : List SExp) (parent : SExp) : Result SExp :=
  Result.ofOption (.grammar (.missingSection tag) parent) (section? tag rows)

def tagged (tag : String) (node : SExp) : Result SExp :=
  if node.tag = some tag then
    match node with
    | .list (_ :: value :: _) => .ok value
    | _ => .error (.grammar (.withoutValue tag) node)
  else .error (.grammar (.wrongTag tag) node)

end TypedContracts.Dump
