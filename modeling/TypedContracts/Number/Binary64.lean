/-!
Binary floating-point numbers of 64 bits, held exactly: sign, mantissa and exponent. Every operation
computes the exact ratio of integers and rounds once, to the nearest number and on a tie to the even
mantissa. Infinities and NaN are not numbers here; a result out of range is `none`.
-/
namespace TypedContracts

structure Binary64 where
  negative : Bool
  mantissa : Nat
  exponent : Int
deriving DecidableEq, Repr

namespace Binary64

def leastExponent : Int := -1074

def greatestExponent : Int := 971

def mantissaBound : Nat := 0x20000000000000

def zero (negative : Bool) : Binary64 := ⟨negative, 0, leastExponent⟩

def isZero (x : Binary64) : Bool := x.mantissa == 0

/-- The quotient rounded to the nearest integer, a half to the even one. -/
def roundedQuotient (num den : Nat) : Nat :=
  let q := num / den
  let twice := 2 * (num % den)
  if den < twice then q + 1
  else if twice = den then q + q % 2
  else q

/-- The ratio `num / (den · 2 ^ e)` as numerator and denominator. -/
def scaledBy (num den : Nat) (e : Int) : Nat × Nat :=
  if 0 ≤ e then (num, den * Nat.pow 2 e.toNat) else (num * Nat.pow 2 (-e).toNat, den)

/-- The exponent at which the integer part of `num / den` fills the mantissa, or the least one. -/
def fittingExponent (num den : Nat) : Int :=
  let e : Int := (Nat.log2 num : Int) - (Nat.log2 den : Int) - 53
  let (n, d) := scaledBy num den e
  let e := if n / d < mantissaBound then e else e + 1
  if e < leastExponent then leastExponent else e

def ofRatio (negative : Bool) (num den : Nat) : Option Binary64 :=
  if num = 0 then some (zero negative)
  else
    let e := fittingExponent num den
    let (n, d) := scaledBy num den e
    let m := roundedQuotient n d
    let (m, e) := if m = mantissaBound then (m / 2, e + 1) else (m, e)
    if greatestExponent < e then none else some ⟨negative, m, e⟩

def ofNat (n : Nat) : Option Binary64 := ofRatio false n 1

def magnitude (x : Binary64) : Nat × Nat :=
  if 0 ≤ x.exponent then (x.mantissa * Nat.pow 2 x.exponent.toNat, 1)
  else (x.mantissa, Nat.pow 2 (-x.exponent).toNat)

def mul (x y : Binary64) : Option Binary64 :=
  let (a, b) := x.magnitude
  let (c, d) := y.magnitude
  ofRatio (x.negative != y.negative) (a * c) (b * d)

def div (x y : Binary64) : Option Binary64 :=
  let (a, b) := x.magnitude
  let (c, d) := y.magnitude
  if c = 0 then none else ofRatio (x.negative != y.negative) (a * d) (b * c)

def withSign (negative : Bool) (x : Binary64) : Binary64 := { x with negative }

def powerOfTen (n : Nat) : Option Binary64 := ofNat (Nat.pow 10 n)

def sameValue (x y : Binary64) : Bool := x == y || (x.isZero && y.isZero)

def roundedMagnitude (x : Binary64) : Nat :=
  let (n, d) := x.magnitude
  (2 * n + d) / (2 * d)

end Binary64
end TypedContracts
