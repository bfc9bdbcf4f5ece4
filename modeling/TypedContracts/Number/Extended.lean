import TypedContracts.Number.Digits
import TypedContracts.Number.Shortest

/-!
The binary numbers together with the infinities and the undefined number, their decimal text both
ways, and the integers that they stand for.
-/
namespace TypedContracts

inductive Extended where
  | finite (value : Binary64)
  | infinite (negative : Bool)
  | undefined
deriving DecidableEq, Repr

namespace Extended

def isZero : Extended → Bool
  | .finite x => x.isZero
  | .infinite _ => false
  | .undefined => false

/-- Decimal places beyond which every number overflows or vanishes. -/
def decimalPlaces : Int := 400

def ofDecimal (negative : Bool) (digits : Nat) (exponent : Int) : Extended :=
  let places : Int := (Digits.decimal digits).length + exponent
  if digits = 0 ∨ places < -decimalPlaces then .finite (.zero negative)
  else if decimalPlaces < places then .infinite negative
  else
    match Binary64.ofRatio negative (digits * Nat.pow 10 exponent.toNat)
        (Nat.pow 10 (-exponent).toNat) with
    | some x => .finite x
    | none => .infinite negative

def named? (negative : Bool) (name : String) : Option Extended :=
  if name = "inf" ∨ name = "infinity" then some (.infinite negative)
  else if name = "nan" then some .undefined
  else none

/-- Nothing, or a mark and an integer with at least one digit. -/
def exponent? : List Char → Option Int
  | [] => some 0
  | mark :: rest =>
    if mark = 'e' ∨ mark = 'E' then
      let (negative, digits) := Digits.signed rest
      (Digits.decimal? digits).map (Digits.negated negative)
    else none

def numeral? (negative : Bool) (cs : List Char) : Option Extended :=
  let whole := cs.takeWhile Digits.isDecimal
  let rest := cs.dropWhile Digits.isDecimal
  let afterPoint := match rest with
    | '.' :: more => more
    | _ => []
  let fraction := afterPoint.takeWhile Digits.isDecimal
  let tail := match rest with
    | '.' :: more => more.dropWhile Digits.isDecimal
    | _ => rest
  let digits := whole ++ fraction
  if digits.isEmpty then none
  else (exponent? tail).map fun e =>
    ofDecimal negative (Digits.numeral 10 digits) (e - fraction.length)

def parse? (text : String) : Option Extended :=
  let (negative, cs) := Digits.signed text.toList
  match named? negative (String.ofList (cs.map Char.toLower)) with
  | some x => some x
  | none => numeral? negative cs

def plainChars (digits : List Char) (exponent : Int) : List Char :=
  if 0 ≤ exponent then digits ++ List.replicate exponent.toNat '0'
  else
    let places := (-exponent).toNat
    let padded := List.replicate (places + 1 - digits.length) '0' ++ digits
    padded.take (padded.length - places) ++ '.' :: padded.drop (padded.length - places)

def text : Extended → String
  | .undefined => "NaN"
  | .infinite negative => if negative then "-inf" else "inf"
  | .finite x =>
    let d := x.shortest
    let digits := if x.isZero then ['0'] else plainChars (Digits.decimal d.digits) d.exponent
    String.ofList (if x.negative then '-' :: digits else digits)

/-- The nearest integer that an unsigned word with the bound holds, a half rounded away from zero;
the undefined number counts as zero. -/
def clamped (bound : Nat) : Extended → Nat
  | .undefined => 0
  | .infinite negative => if negative then 0 else bound - 1
  | .finite x => if x.negative then 0 else min x.roundedMagnitude (bound - 1)

end Extended
end TypedContracts
