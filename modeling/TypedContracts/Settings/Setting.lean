import TypedContracts.Json.Basic
import TypedContracts.Number.Extended
import TypedContracts.Number.Word
import TypedContracts.Settings.KeyPath
import TypedContracts.Text.LetterCase

/-!
A setting before it has a type, and a tree of them. Values are put into the tree along paths of keys
and indices, and read from it with generous conversions between texts, numbers and truth values.
-/
namespace TypedContracts

inductive Setting where
  | null
  | bool (value : Bool)
  | integer (value : Int)
  | real (value : Extended)
  | text (value : String)
  | items (values : List Setting)
  | table (members : List (String × Setting))
deriving Repr, Inhabited

namespace Setting

def emptyTable : Setting := .table []

def members : Setting → List (String × Setting)
  | .table ms => ms
  | _ => []

def member? (s : Setting) (key : String) : Option Setting := s.members.lookup key

def withMember (s : Setting) (key : String) (value : Setting) : Setting :=
  .table (Json.insertMember key value s.members)

mutual
/-- What a value makes of the one in whose place it comes: a table enters member by member, anything
else takes the place. -/
def overlaid (old : Setting) : Setting → Setting
  | .table ms => overlaidMembers old ms
  | .null => .null
  | .bool b => .bool b
  | .integer n => .integer n
  | .real x => .real x
  | .text t => .text t
  | .items vs => .items vs
def overlaidMembers (old : Setting) : List (String × Setting) → Setting
  | [] => old
  | (key, value) :: rest =>
    overlaidMembers (old.withMember key (overlaid ((old.member? key).getD emptyTable) value)) rest
end

def values : Setting → List Setting
  | .items vs => vs
  | _ => []

def nulls (count : Nat) : List Setting := List.replicate count null

/-- Changes an item; what is no array becomes one. A negative index counts from the end, and an
array that does not reach an index grows towards it. -/
def withItem (index : Int) (change : Setting → Setting) (s : Setting) : Setting :=
  let vs := s.values
  if 0 ≤ index then
    .items ((vs ++ nulls (index.toNat + 1 - vs.length)).modify index.toNat change)
  else
    let back := index.natAbs
    .items ((nulls (back - vs.length) ++ vs).modify (vs.length - back) change)

/-- Puts a value at a path; the tables and arrays on the way are made where they are missing. An
item at the end of the path is replaced as a whole. -/
def put (value : Setting) : KeyPath → Setting → Setting
  | [], s => s.overlaid value
  | .key name :: rest, s => s.withMember name (put value rest ((s.member? name).getD emptyTable))
  | [.index n], s => s.withItem n fun _ => value
  | .index n :: rest, s => s.withItem n (put value rest)

def putAll (layer : List (KeyPath × Setting)) (s : Setting) : Setting :=
  layer.foldl (fun s entry => put entry.2 entry.1 s) s

def isNull : Setting → Bool
  | .null => true
  | _ => false

def boolText (b : Bool) : String := if b then "true" else "false"

def text? : Setting → Option String
  | .text t => some t
  | .bool b => some (boolText b)
  | .integer n => some (String.ofList (Digits.decimalInteger n))
  | .real x => some x.text
  | .null => none
  | .items _ => none
  | .table _ => none

def trueWords : List String := ["true", "on", "yes"]

def falseWords : List String := ["false", "off", "no"]

def wordValue? (t : String) : Option Bool :=
  if Text.lowered t ∈ trueWords then some true
  else if Text.lowered t ∈ falseWords then some false
  else none

/-- A truth value counts as one or zero, and a fraction is rounded. -/
def word64? : Setting → Option Nat
  | .integer n => Word.natural? Word.count64 n
  | .bool b => some b.toNat
  | .real x => some (x.clamped Word.count64)
  | .text t =>
    match wordValue? t with
    | some b => some b.toNat
    | none =>
      (Digits.decimal? (Digits.withoutPlus t.toList)).bind fun n => Word.natural? Word.count64 n
  | .null => none
  | .items _ => none
  | .table _ => none

def word32? (s : Setting) : Option Nat := s.word64?.map (· % Word.count32)

def bool? : Setting → Option Bool
  | .bool b => some b
  | .integer n => some (n != 0)
  | .real x => some !x.isZero
  | .text t => if t = "1" then some true else if t = "0" then some false else wordValue? t
  | .null => none
  | .items _ => none
  | .table _ => none

def ofInteger (n : Int) : Setting :=
  if Word.holdsSigned Word.count64 n then .integer n
  else .real (.ofDecimal (n < 0) n.natAbs 0)

mutual
def ofJson : Json → Setting
  | .null => .null
  | .bool b => .bool b
  | .integer n => ofInteger n
  | .binary x => .real (.finite x)
  | .text t => .text t
  | .array values => .items (ofJsonItems values)
  | .object ms => .table (ofJsonMembers ms)
def ofJsonItems : List Json → List Setting
  | [] => []
  | value :: rest => ofJson value :: ofJsonItems rest
def ofJsonMembers : List (String × Json) → List (String × Setting)
  | [] => []
  | (key, value) :: rest => (key, ofJson value) :: ofJsonMembers rest
end

end Setting
end TypedContracts
