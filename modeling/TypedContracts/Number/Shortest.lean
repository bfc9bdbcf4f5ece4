import TypedContracts.Number.Binary64

/-!
The shortest decimal that reads back as a given binary number. The reals that round to the number
form an interval, whose ends belong to it when the mantissa is even. Decimal grids are tried from
the coarsest on; the first with a point in the interval wins, of two points the nearer one, and of
two equally near ones the even one.
-/
namespace TypedContracts.Binary64

structure Decimal where
  digits : Nat
  exponent : Int
deriving DecidableEq, Repr

/-- The interval in quarters of the last binary place: lower end, value, upper end. The numbers
below a power of two lie twice as dense. -/
def quarters (x : Binary64) : Nat × Nat × Nat :=
  let value := 4 * x.mantissa
  let dense := decide (x.mantissa * 2 = mantissaBound) && decide (leastExponent < x.exponent)
  (if dense then value - 1 else value - 2, value, value + 2)

/-- Factors `(a, b)` such that `p · 10 ^ k ≤ v · 2 ^ (e - 2)` iff `p · a ≤ v · b`. -/
def gridFactors (k e : Int) : Nat × Nat :=
  (Nat.pow 10 k.toNat * Nat.pow 2 (2 - e).toNat,
    Nat.pow 10 (-k).toNat * Nat.pow 2 (e - 2).toNat)

/-- The point of the grid of `10 ^ k` that stands for `x`, if one lies in the interval. -/
def onGrid? (x : Binary64) (k : Int) : Option Decimal :=
  let (low, value, high) := x.quarters
  let (a, b) := gridFactors k x.exponent
  let closed := x.mantissa % 2 == 0
  let below := value * b / a
  let inside (p : Nat) : Bool :=
    if closed then decide (low * b ≤ p * a) && decide (p * a ≤ high * b)
    else decide (low * b < p * a) && decide (p * a < high * b)
  let down := 0 < below && inside below
  let up := inside (below + 1)
  let fromBelow := value * b - below * a
  let fromAbove := (below + 1) * a - value * b
  if down && up then
    if fromBelow < fromAbove then some ⟨below, k⟩
    else if fromAbove < fromBelow then some ⟨below + 1, k⟩
    else some ⟨below + below % 2, k⟩
  else if down then some ⟨below, k⟩
  else if up then some ⟨below + 1, k⟩
  else none

def gridExponents : List Int := (List.range 634).map fun (i : Nat) => 309 - (i : Int)

def shortest (x : Binary64) : Decimal :=
  if x.isZero then ⟨0, 0⟩ else (gridExponents.findSome? x.onGrid?).getD ⟨x.mantissa, 0⟩

end TypedContracts.Binary64
