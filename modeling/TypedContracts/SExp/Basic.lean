/-!
S-expressions: an atom or a list. The tag of a list is its first element when that is an atom.
-/
namespace TypedContracts

inductive SExp where
  | atom (text : String)
  | list (items : List SExp)
deriving Repr, BEq

namespace SExp

mutual
def decEq : (a b : SExp) → Decidable (a = b)
  | .atom s, .atom t => if h : s = t then isTrue (by rw [h]) else isFalse (by simp [h])
  | .list xs, .list ys =>
    match decEqList xs ys with
    | isTrue h => isTrue (by rw [h])
    | isFalse h => isFalse (by simp [h])
  | .atom _, .list _ => isFalse (by simp)
  | .list _, .atom _ => isFalse (by simp)
def decEqList : (a b : List SExp) → Decidable (a = b)
  | [], [] => isTrue rfl
  | x :: xs, y :: ys =>
    match decEq x y, decEqList xs ys with
    | isTrue h, isTrue h' => isTrue (by rw [h, h'])
    | isFalse h, _ => isFalse (by simp [h])
    | _, isFalse h => isFalse (by simp [h])
  | [], _ :: _ => isFalse (by simp)
  | _ :: _, [] => isFalse (by simp)
end

instance : DecidableEq SExp := decEq

def asAtom : SExp → Option String
  | .atom s => some s
  | .list _ => none

def asList : SExp → Option (List SExp)
  | .atom _ => none
  | .list items => some items

def tag : SExp → Option String
  | .list (.atom s :: _) => some s
  | _ => none

end SExp
end TypedContracts
