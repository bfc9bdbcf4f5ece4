/-!
Integers of a fixed width, by the number of words of that width. Nothing here wraps; what does not
fit is refused or reduced where it is read.
-/
namespace TypedContracts.Word

def count32 : Nat := 0x100000000

def count64 : Nat := 0x10000000000000000

def count128 : Nat := 0x100000000000000000000000000000000

def holdsSigned (count : Nat) (n : Int) : Bool :=
  decide (-((count / 2 : Nat) : Int) ≤ n) && decide (n < ((count / 2 : Nat) : Int))

def signed? (count : Nat) (n : Int) : Option Int := if holdsSigned count n then some n else none

def natural? (count : Nat) (n : Int) : Option Nat :=
  if 0 ≤ n ∧ n < count then some n.toNat else none

end TypedContracts.Word
