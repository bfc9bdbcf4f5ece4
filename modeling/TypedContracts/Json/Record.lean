import TypedContracts.Json.Basic
import TypedContracts.Number.Word

/-!
Records in JSON. A record is an object, where members may be missing and unknown ones are skipped,
or an array of the members in their declared order, where only the last ones may be missing.
-/
namespace TypedContracts.Json

/-- What a record holds for one declared member: a value, nothing because an object lacks the key,
or nothing because an array ended before it. -/
inductive Slot (α : Type) where
  | given (value : α)
  | absent
  | cut

namespace Slot
variable {α β : Type}

def required (read : α → Option β) : Slot α → Option β
  | .given value => read value
  | .absent => none
  | .cut => none

/-- The default stands in for a missing value, never for one that does not decode. -/
def orDefault (default : β) (read : α → Option β) : Slot α → Option β
  | .given value => read value
  | .absent => some default
  | .cut => some default

/-- An object may leave the member out; an array may not. -/
def optional (isNull : α → Bool) (read : α → Option β) : Slot α → Option (Option β)
  | .given value => if isNull value then some none else (read value).map some
  | .absent => some none
  | .cut => none

def omissible (isNull : α → Bool) (read : α → Option β) : Slot α → Option (Option β)
  | .cut => some none
  | slot => slot.optional isNull read

end Slot

def valuesOf {α : Type} (key : String) (members : List (String × α)) : List α :=
  (members.filter fun m => m.1 == key).map (·.2)

/-- A key may occur once. -/
def memberSlot? {α : Type} (members : List (String × α)) (key : String) : Option (Slot α) :=
  match valuesOf key members with
  | [] => some .absent
  | [value] => some (.given value)
  | _ => none

def memberSlots? {α : Type} (keys : List String) (members : List (String × α)) :
    Option (List (Slot α)) :=
  keys.mapM (memberSlot? members)

def onlyKeys {α : Type} (keys : List String) (members : List (String × α)) : Bool :=
  members.all fun m => keys.contains m.1

def itemSlots? {α : Type} (count : Nat) (items : List α) : Option (List (Slot α)) :=
  if count < items.length then none
  else some (items.map .given ++ List.replicate (count - items.length) .cut)

def slots? (keys : List String) : Json → Option (List (Slot Json))
  | .object members => memberSlots? keys members
  | .array items => itemSlots? keys.length items
  | _ => none

def strictSlots? (keys : List String) : Json → Option (List (Slot Json))
  | .object members => if onlyKeys keys members then memberSlots? keys members else none
  | .array items => itemSlots? keys.length items
  | _ => none

def list? {α : Type} (read : Json → Option α) : Json → Option (List α)
  | .array items => items.mapM read
  | _ => none

def bool? : Json → Option Bool
  | .bool b => some b
  | _ => none

def below? (bound : Nat) : Json → Option Nat
  | .integer n => Word.natural? bound n
  | _ => none

def word32? : Json → Option Nat := below? Word.count32

def word64? : Json → Option Nat := below? Word.count64

def texts (items : List String) : Json := .array (items.map .text)

def ofMembers (members : List (String × Option Json)) : Json :=
  .object (members.filterMap fun m => m.2.map fun value => (m.1, value))

end TypedContracts.Json
