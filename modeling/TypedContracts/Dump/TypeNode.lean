import TypedContracts.Dump.Node
import TypedContracts.Model.Signature

/-!
Fields from the type nodes of a module dump: primitive types, addresses (twenty bytes on the wire),
applications of a type constructor and maps. Any other node is a grammar mismatch.
-/
namespace TypedContracts.Dump

def addressType : String := "ByStr20"

mutual
def fieldOf : SExp → Result Field
  | .atom s => .error (.grammar .typeNotList (.atom s))
  | .list (.atom "PrimType" :: .atom name :: _) => .ok (.ofPrimitive name)
  | .list (.atom "PrimType" :: rest) =>
    .error (.grammar .primitiveWithoutName (.list (.atom "PrimType" :: rest)))
  | .list (.atom "Address" :: _) => .ok (.ofPrimitive addressType)
  | .list [.atom "ADT"] => .error (.grammar .adtWithoutConstructor (.list [.atom "ADT"]))
  | .list [.atom "ADT", ident] => do
    let constructor ← identName ident
    return .ofApplication constructor []
  | .list (.atom "ADT" :: ident :: .atom s :: _) => do
    let _ ← identName ident
    .error (.grammar (.notList "ADT argument types") (.atom s))
  | .list (.atom "ADT" :: ident :: .list arguments :: _) => do
    let constructor ← identName ident
    let fields ← fieldsOf arguments
    return .ofApplication constructor fields
  | .list [.atom "MapType", key, value] => do
    let key ← fieldOf key
    let value ← fieldOf value
    return .ofMap key value
  | .list (.atom "MapType" :: rest) =>
    .error (.grammar .mapArity (.list (.atom "MapType" :: rest)))
  | .list items => .error (.grammar .unexpectedType (.list items))
/-- The fields of nodes in a row; the first malformed one decides. -/
def fieldsOf : List SExp → Result (List Field)
  | [] => .ok []
  | node :: rest => do
    let field ← fieldOf node
    let fields ← fieldsOf rest
    return field :: fields
end

end TypedContracts.Dump
