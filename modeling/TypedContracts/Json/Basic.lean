import TypedContracts.Number.Binary64

/-!
JSON values. A number is an exact integer of 64 bits or a binary floating-point number. The members
of an object keep the order in which they were written; `canonical` sorts them by key.
-/
namespace TypedContracts

inductive Json where
  | null
  | bool (value : Bool)
  | integer (value : Int)
  | binary (value : Binary64)
  | text (value : String)
  | array (items : List Json)
  | object (members : List (String × Json))
deriving Repr, Inhabited

namespace Json

mutual
def decEq : (a b : Json) → Decidable (a = b)
  | .null, b => match b with
    | .null => isTrue rfl
    | .bool _ | .integer _ | .binary _ | .text _ | .array _ | .object _ => isFalse (by simp)
  | .bool x, b => match b with
    | .bool y => if h : x = y then isTrue (by rw [h]) else isFalse (by simp [h])
    | .null | .integer _ | .binary _ | .text _ | .array _ | .object _ => isFalse (by simp)
  | .integer x, b => match b with
    | .integer y => if h : x = y then isTrue (by rw [h]) else isFalse (by simp [h])
    | .null | .bool _ | .binary _ | .text _ | .array _ | .object _ => isFalse (by simp)
  | .binary x, b => match b with
    | .binary y => if h : x = y then isTrue (by rw [h]) else isFalse (by simp [h])
    | .null | .bool _ | .integer _ | .text _ | .array _ | .object _ => isFalse (by simp)
  | .text x, b => match b with
    | .text y => if h : x = y then isTrue (by rw [h]) else isFalse (by simp [h])
    | .null | .bool _ | .integer _ | .binary _ | .array _ | .object _ => isFalse (by simp)
  | .array xs, b => match b with
    | .array ys => match decEqItems xs ys with
      | isTrue h => isTrue (by rw [h])
      | isFalse h => isFalse (by simp [h])
    | .null | .bool _ | .integer _ | .binary _ | .text _ | .object _ => isFalse (by simp)
  | .object xs, b => match b with
    | .object ys => match decEqMembers xs ys with
      | isTrue h => isTrue (by rw [h])
      | isFalse h => isFalse (by simp [h])
    | .null | .bool _ | .integer _ | .binary _ | .text _ | .array _ => isFalse (by simp)
def decEqItems : (a b : List Json) → Decidable (a = b)
  | [], [] => isTrue rfl
  | x :: xs, y :: ys =>
    match decEq x y, decEqItems xs ys with
    | isTrue h, isTrue h' => isTrue (by rw [h, h'])
    | isFalse h, _ => isFalse (by simp [h])
    | _, isFalse h => isFalse (by simp [h])
  | [], _ :: _ => isFalse (by simp)
  | _ :: _, [] => isFalse (by simp)
def decEqMembers : (a b : List (String × Json)) → Decidable (a = b)
  | [], [] => isTrue rfl
  | (k, x) :: xs, (l, y) :: ys =>
    if hk : k = l then
      match decEq x y, decEqMembers xs ys with
      | isTrue h, isTrue h' => isTrue (by rw [hk, h, h'])
      | isFalse h, _ => isFalse (by simp [h])
      | _, isFalse h => isFalse (by simp [h])
    else isFalse (by simp [hk])
  | [], _ :: _ => isFalse (by simp)
  | _ :: _, [] => isFalse (by simp)
end

instance : DecidableEq Json := decEq

def asText? : Json → Option String
  | .text s => some s
  | _ => none

def asArray? : Json → Option (List Json)
  | .array items => some items
  | _ => none

def asObject? : Json → Option (List (String × Json))
  | .object members => some members
  | _ => none

def member? (key : String) : Json → Option Json
  | .object members => members.lookup key
  | _ => none

def isNull : Json → Bool
  | .null => true
  | _ => false

/-- A member enters behind the smaller keys and replaces one of the same key. Keys compare by code
point, which is the order of their UTF-8 bytes. -/
def insertMember {α : Type} (key : String) (value : α) : List (String × α) → List (String × α)
  | [] => [(key, value)]
  | (k, v) :: rest =>
    if key < k then (key, value) :: (k, v) :: rest
    else if key = k then (key, value) :: rest
    else (k, v) :: insertMember key value rest

mutual
/-- Every object sorted by key; of members with one key the last stays. -/
def canonical : Json → Json
  | .array items => .array (canonicalItems items)
  | .object members => .object (canonicalMembers members [])
  | other => other
def canonicalItems : List Json → List Json
  | [] => []
  | item :: rest => canonical item :: canonicalItems rest
def canonicalMembers : List (String × Json) → List (String × Json) → List (String × Json)
  | [], sorted => sorted
  | (key, value) :: rest, sorted =>
    canonicalMembers rest (insertMember key (canonical value) sorted)
end

mutual
/-- Equal as values: the two zeros are one number. Both sides are canonical. -/
def same : Json → Json → Bool
  | .binary x, .binary y => x.sameValue y
  | .array xs, .array ys => sameItems xs ys
  | .object xs, .object ys => sameMembers xs ys
  | .null, .null => true
  | .bool x, .bool y => x == y
  | .integer x, .integer y => x == y
  | .text x, .text y => x == y
  | _, _ => false
def sameItems : List Json → List Json → Bool
  | [], [] => true
  | x :: xs, y :: ys => same x y && sameItems xs ys
  | _, _ => false
def sameMembers : List (String × Json) → List (String × Json) → Bool
  | [], [] => true
  | (k, x) :: xs, (l, y) :: ys => k == l && same x y && sameMembers xs ys
  | _, _ => false
end

end Json
end TypedContracts
