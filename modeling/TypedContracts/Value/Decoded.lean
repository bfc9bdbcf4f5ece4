import TypedContracts.Error

/-!
Chain values as decoded values. Integers travel as decimal text; types of up to 64 bits decode to a
machine integer of 128 bits, those of 128 and 256 bits to an unbounded one, and every other type
stays JSON.
-/
namespace TypedContracts

inductive IntegerKind where
  | machine
  | unbounded
deriving DecidableEq, Repr

def IntegerKind.ofType? (type : String) : Option IntegerKind :=
  if type ∈ ["Int32", "Uint32", "Int64", "Uint64"] then some .machine
  else if type ∈ ["Int128", "Uint128", "Int256", "Uint256"] then some .unbounded
  else none

def isIntegerType (type : String) : Bool := (IntegerKind.ofType? type).isSome

inductive Decoded where
  | null
  | bool (value : Bool)
  | machine (value : Int)
  | unbounded (value : Int)
  | json (value : Json)
deriving DecidableEq, Repr

namespace Decoded

def integer? : Decoded → Option Int
  | .machine n => some n
  | .unbounded n => some n
  | .null => none
  | .bool _ => none
  | .json _ => none

def machine? : Decoded → Option Int
  | .machine n => some n
  | _ => none

def same (a b : Decoded) : Bool :=
  match a.integer?, b.integer? with
  | some m, some n => m == n
  | _, _ => match a, b with
    | .json x, .json y => x.same y
    | _, _ => a == b

/-- One optional sign and at least one digit, within 128 bits. -/
def readMachine? (cs : List Char) : Option Int :=
  let (negative, digits) := Digits.signed cs
  match Digits.decimal? digits with
  | none => none
  | some n => Word.signed? Word.count128 (Digits.negated negative n)

/-- Digits among which an underscore may stand anywhere but first. -/
def readNatural? : List Char → Option Nat
  | [] => none
  | '_' :: _ => none
  | cs =>
    if cs.all fun c => Digits.isDecimal c || c == '_' then
      some (Digits.numeral 10 (cs.filter (· != '_')))
    else none

def readUnbounded? : List Char → Option Int
  | '-' :: digits => (readNatural? digits).map fun n => -(n : Int)
  | '+' :: digits => (readNatural? digits).map fun n => (n : Int)
  | digits => (readNatural? digits).map fun n => (n : Int)

def integerText? : Json → Option String
  | .text s => some s
  | .integer n => some (String.ofList (Digits.decimalInteger n))
  | .binary x => some (String.ofList (Json.binaryChars x))
  | _ => none

def readAs (type : String) (kind : IntegerKind) (raw : Json) : Result Decoded :=
  match integerText? raw with
  | none => .error (.decode (.notScalar type raw))
  | some text =>
    let value := match kind with
      | .machine => (readMachine? text.toList).map .machine
      | .unbounded => (readUnbounded? text.toList).map .unbounded
    Result.ofOption (.decode (.invalid type text)) value

def ofScalar (type : String) (raw : Json) : Result Decoded :=
  match IntegerKind.ofType? type with
  | none => .ok (.json raw)
  | some kind => readAs type kind raw

end Decoded
end TypedContracts
