import TypedContracts.Json.Record

/-!
JSON as it stands in a text. A part may have no value: text with half a surrogate pair, a number out
of range, an array or object nested too deep. Such a part spoils what is read from it, so a member
that nobody asks for may hold one.
-/
namespace TypedContracts.Json

inductive Raw where
  | leaf (value : Option Json)
  | array (items : List Raw)
  | object (members : List (Option String × Raw))
deriving Inhabited

namespace Raw

mutual
def value? : Raw → Option Json
  | .leaf value => value
  | .array items => (itemValues? items).map .array
  | .object members => (memberValues? members).map .object
def itemValues? : List Raw → Option (List Json)
  | [] => some []
  | item :: rest => do
    let value ← item.value?
    return value :: (← itemValues? rest)
def memberValues? : List (Option String × Raw) → Option (List (String × Json))
  | [] => some []
  | (key, value) :: rest => do
    let key ← key
    let value ← value.value?
    return (key, value) :: (← memberValues? rest)
end

def asText? : Raw → Option String
  | .leaf value => value >>= Json.asText?
  | _ => none

def asArray? : Raw → Option (List Raw)
  | .array items => some items
  | _ => none

def asObject? : Raw → Option (List (String × Raw))
  | .object members => members.mapM fun m => m.1.map fun key => (key, m.2)
  | _ => none

def isNull : Raw → Bool
  | .leaf value => value.any Json.isNull
  | _ => false

end Raw

structure Form (α : Type) where
  members? : α → Option (List (String × α))
  items? : α → Option (List α)
  text? : α → Option String
  isNull : α → Bool
  value? : α → Option Json

def form : Form Json := ⟨asObject?, asArray?, asText?, isNull, some⟩

def Raw.form : Form Raw := ⟨asObject?, asArray?, asText?, isNull, value?⟩

namespace Form
variable {α β : Type}

def slots? (form : Form α) (keys : List String) (a : α) : Option (List (Slot α)) :=
  match form.members? a with
  | some members => memberSlots? keys members
  | none => form.items? a >>= itemSlots? keys.length

def list? (form : Form α) (read : α → Option β) (a : α) : Option (List β) :=
  form.items? a >>= fun items => items.mapM read

end Form
end TypedContracts.Json
