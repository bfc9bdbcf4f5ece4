import TypedContracts.Json.Record

/-!
Values as the chain takes them: a scalar's text, a constructor application or a list. Stored, text
is a scalar, a record of constructor, argument types and arguments an application, and any other
array a list, tried in this order.
-/
namespace TypedContracts
open Json

inductive Encoded where
  | scalar (text : String)
  | application (constructor : String) (types : List String) (arguments : List Encoded)
  | list (items : List Encoded)
deriving Repr, Inhabited

namespace Encoded

mutual
def decEq : (a b : Encoded) → Decidable (a = b)
  | .scalar s, b => match b with
    | .scalar t => if h : s = t then isTrue (by rw [h]) else isFalse (by simp [h])
    | .application _ _ _ | .list _ => isFalse (by simp)
  | .application c ts xs, b => match b with
    | .application d us ys =>
      if h : c = d ∧ ts = us then
        match decEqList xs ys with
        | isTrue h' => isTrue (by rw [h.1, h.2, h'])
        | isFalse h' => isFalse (by simp [h'])
      else isFalse (by
        simp only [Encoded.application.injEq, ← and_assoc, h, false_and, not_false_eq_true])
    | .scalar _ | .list _ => isFalse (by simp)
  | .list xs, b => match b with
    | .list ys => match decEqList xs ys with
      | isTrue h => isTrue (by rw [h])
      | isFalse h => isFalse (by simp [h])
    | .scalar _ | .application _ _ _ => isFalse (by simp)
def decEqList : (a b : List Encoded) → Decidable (a = b)
  | [], [] => isTrue rfl
  | x :: xs, y :: ys =>
    match decEq x y, decEqList xs ys with
    | isTrue h, isTrue h' => isTrue (by rw [h, h'])
    | isFalse h, _ => isFalse (by simp [h])
    | _, isFalse h => isFalse (by simp [h])
  | [], _ :: _ => isFalse (by simp)
  | _ :: _, [] => isFalse (by simp)
end

instance : DecidableEq Encoded := decEq

mutual
def toJson : Encoded → Json
  | .scalar s => .text s
  | .application c types arguments =>
    .object [("constructor", .text c), ("argtypes", texts types),
      ("arguments", .array (listToJson arguments))]
  | .list items => .array (listToJson items)
def listToJson : List Encoded → List Json
  | [] => []
  | v :: vs => v.toJson :: listToJson vs
end

structure Reading where
  text : Option String
  texts : Option (List String)
  value : Option Encoded
  application : Option Encoded
  values : Option (List Encoded)

namespace Reading

def nothing : Reading := ⟨none, none, none, none, none⟩

def applicationOf : List (Slot Reading) → Option Encoded
  | [constructor, types, arguments] => do
    let c ← constructor.required (·.text)
    let types ← types.required (·.texts)
    let arguments ← arguments.required (·.values)
    some (.application c types arguments)
  | _ => none

def ofItems (items : List Reading) : Reading :=
  let application := itemSlots? 3 items >>= applicationOf
  let values := items.mapM (·.value)
  { text := none
    texts := items.mapM (·.text)
    value := application <|> values.map .list
    application
    values }

def ofMembers (members : List (String × Reading)) : Reading :=
  let application :=
    memberSlots? ["constructor", "argtypes", "arguments"] members >>= applicationOf
  { nothing with value := application, application }

mutual
def ofJson : Json → Reading
  | .text s => { nothing with text := some s, value := some (.scalar s) }
  | .array items => ofItems (ofJsonItems items)
  | .object members => ofMembers (ofJsonMembers members)
  | .null => nothing
  | .bool _ => nothing
  | .integer _ => nothing
  | .binary _ => nothing
def ofJsonItems : List Json → List Reading
  | [] => []
  | item :: rest => ofJson item :: ofJsonItems rest
def ofJsonMembers : List (String × Json) → List (String × Reading)
  | [] => []
  | (key, value) :: rest => (key, ofJson value) :: ofJsonMembers rest
end

end Reading

def ofJson? (j : Json) : Option Encoded := (Reading.ofJson j).value

def applicationOfJson? (j : Json) : Option Encoded := (Reading.ofJson j).application

end Encoded

structure Param where
  name : String
  type : String
  value : Encoded
deriving DecidableEq, Repr

namespace Param

def toJson (p : Param) : Json :=
  .object [("vname", .text p.name), ("type", .text p.type), ("value", p.value.toJson)]

def ofJson? (j : Json) : Option Param := do
  match ← slots? ["vname", "type", "value"] j with
  | [name, type, value] =>
    some ⟨← name.required asText?, ← type.required asText?, ← value.required Encoded.ofJson?⟩
  | _ => none

end Param
end TypedContracts
