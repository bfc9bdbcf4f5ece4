import TypedContracts.Json.Raw
import TypedContracts.Model.Basic

/-!
The stored form of a model: `toJson` writes it and `ofJson?` reads it; `read?` reads any form of
value. A shape has no tag of its own: text is a primitive, a record of a constructor and its
arguments an application, and a record of a key and a value a map, tried in this order. To be tried
it is read as a whole, undeclared members included.
-/
namespace TypedContracts
open Json
variable {α : Type}

mutual
def Field.toJson : Field → Json
  | ⟨name, type, .unknown⟩ => .object [("name", .text name), ("type", .text type)]
  | ⟨name, type, .primitive p⟩ =>
    .object [("name", .text name), ("type", .text type), ("typeJSON", .text p)]
  | ⟨name, type, .adt c args⟩ =>
    .object [("name", .text name), ("type", .text type),
      ("typeJSON", .object [("ctor", .text c), ("argtypes", .array (Field.listToJson args))])]
  | ⟨name, type, .map k v⟩ =>
    .object [("name", .text name), ("type", .text type),
      ("typeJSON", .object [("key", k.toJson), ("value", v.toJson)])]
def Field.listToJson : List Field → List Json
  | [] => []
  | f :: fs => f.toJson :: Field.listToJson fs
end

def Shape.toJson? : Shape → Option Json
  | .unknown => none
  | .primitive p => some (.text p)
  | .adt c args =>
    some (.object [("ctor", .text c), ("argtypes", .array (Field.listToJson args))])
  | .map k v => some (.object [("key", k.toJson), ("value", v.toJson)])

structure Reading where
  isNull : Bool
  text : Option String
  field : Option Field
  shape : Option Shape
  fields : Option (List Field)

namespace Reading

def nothing : Reading := ⟨false, none, none, none, none⟩

def fieldOf : List (Slot Reading) → Option Field
  | [name, type, shape] => do
    let name ← name.orDefault "" (·.text)
    let type ← type.required (·.text)
    let shape ← shape.omissible (·.isNull) (·.shape)
    some ⟨name, type, shape.getD .unknown⟩
  | _ => none

def applicationOf : List (Slot Reading) → Option Shape
  | [constructor, arguments] => do
    let c ← constructor.required (·.text)
    let args ← arguments.required (·.fields)
    some (.adt c args)
  | _ => none

def mapOf : List (Slot Reading) → Option Shape
  | [key, value] => do
    let k ← key.required (·.field)
    let v ← value.required (·.field)
    some (.map k v)
  | _ => none

def ofItems (items : List Reading) : Reading where
  isNull := false
  text := none
  field := itemSlots? 3 items >>= fieldOf
  shape := (itemSlots? 2 items >>= applicationOf) <|> (itemSlots? 2 items >>= mapOf)
  fields := items.mapM (·.field)

def ofMembers (members : List (String × Reading)) : Reading where
  isNull := false
  text := none
  field := memberSlots? ["name", "type", "typeJSON"] members >>= fieldOf
  shape := (memberSlots? ["ctor", "argtypes"] members >>= applicationOf) <|>
    (memberSlots? ["key", "value"] members >>= mapOf)
  fields := none

mutual
def ofJson : Json → Reading
  | .null => { nothing with isNull := true }
  | .text s => { nothing with text := some s, shape := some (.primitive s) }
  | .array items => ofItems (ofJsonItems items)
  | .object members => ofMembers (ofJsonMembers members)
  | .bool _ => nothing
  | .integer _ => nothing
  | .binary _ => nothing
def ofJsonItems : List Json → List Reading
  | [] => []
  | item :: rest => ofJson item :: ofJsonItems rest
def ofJsonMembers : List (String × Json) → List (String × Reading)
  | [] => []
  | (key, value) :: rest => (key, ofJson value) :: ofJsonMembers rest
end

end Reading

def Field.ofJson? (j : Json) : Option Field := (Reading.ofJson j).field

def Shape.ofJson? (j : Json) : Option Shape := (Reading.ofJson j).shape

def Field.listOfJson? (j : Json) : Option (List Field) := (Reading.ofJson j).fields

def Field.read? (form : Form α) (a : α) : Option Field := do
  match ← form.slots? ["name", "type", "typeJSON"] a with
  | [name, type, shape] =>
    let name ← name.orDefault "" form.text?
    let type ← type.required form.text?
    let shape ← shape.omissible form.isNull fun s => form.value? s >>= Shape.ofJson?
    some ⟨name, type, shape.getD .unknown⟩
  | _ => none

def Field.listRead? (form : Form α) (a : α) : Option (List Field) := form.list? (Field.read? form) a

def applicationOfJson? (j : Json) : Option (String × List Field) := do
  match ← slots? ["ctor", "argtypes"] j with
  | [c, args] => some (← c.required asText?, ← args.required Field.listOfJson?)
  | _ => none

def applicationToJson (constructor : String) (arguments : List Field) : Json :=
  .object [("ctor", .text constructor), ("argtypes", .array (Field.listToJson arguments))]

namespace Component

def toJson (c : Component) : Json :=
  .object [("kind", .text c.kind), ("name", .text c.name),
    ("params", .array (Field.listToJson c.params))]

def read? (form : Form α) (a : α) : Option Component := do
  match ← form.slots? ["kind", "name", "params"] a with
  | [kind, name, params] =>
    some ⟨← kind.required form.text?, ← name.required form.text?,
      ← params.required (Field.listRead? form)⟩
  | _ => none

def ofJson? (j : Json) : Option Component := read? form j

end Component

namespace Constructor

def toJson (c : Constructor) : Json :=
  .object [("typeName", .text c.typeName), ("constructorName", .text c.name),
    ("argumentTypes", .array (Field.listToJson c.arguments))]

def read? (form : Form α) (a : α) : Option Constructor := do
  match ← form.slots? ["typeName", "constructorName", "argumentTypes"] a with
  | [typeName, name, arguments] =>
    some ⟨← typeName.required form.text?, ← name.required form.text?,
      ← arguments.required (Field.listRead? form)⟩
  | _ => none

def ofJson? (j : Json) : Option Constructor := read? form j

end Constructor

namespace Contract

def paramsToJson : Option (List Field) → Json
  | none => .null
  | some fields => .array (Field.listToJson fields)

def toJson (c : Contract) : Json :=
  .object [("name", .text c.name), ("constructorParams", paramsToJson c.params),
    ("fields", .array (Field.listToJson c.fields)),
    ("transitions", .array (c.components.map Component.toJson)),
    ("ctors", .array (c.constructors.map Constructor.toJson))]

def read? (form : Form α) (a : α) : Option Contract := do
  match ← form.slots? ["name", "constructorParams", "fields", "transitions", "ctors"] a with
  | [name, params, fields, components, constructors] =>
    some ⟨← name.required form.text?, ← params.optional form.isNull (Field.listRead? form),
      ← fields.required (Field.listRead? form),
      ← components.required (form.list? (Component.read? form)),
      ← constructors.required (form.list? (Constructor.read? form))⟩
  | _ => none

def ofJson? (j : Json) : Option Contract := read? form j

end Contract
end TypedContracts
