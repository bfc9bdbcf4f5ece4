/-!
Numerals: the ASCII digits, their values, and the number that a row of them denotes.
-/
namespace TypedContracts.Digits

def isDecimal (c : Char) : Bool := decide ('0' ≤ c ∧ c ≤ '9')

def isHexadecimal (c : Char) : Bool :=
  isDecimal c || decide ('a' ≤ c ∧ c ≤ 'f') || decide ('A' ≤ c ∧ c ≤ 'F')

def value (c : Char) : Nat :=
  if isDecimal c then c.toNat - '0'.toNat
  else if 'a' ≤ c ∧ c ≤ 'f' then c.toNat - 'a'.toNat + 10
  else c.toNat - 'A'.toNat + 10

def numeral (base : Nat) (digits : List Char) : Nat :=
  digits.foldl (fun n d => n * base + value d) 0

def numeral? (base : Nat) (digit : Char → Bool) (cs : List Char) : Option Nat :=
  if cs.isEmpty || !cs.all digit then none else some (numeral base cs)

def decimal? (cs : List Char) : Option Nat := numeral? 10 isDecimal cs

def hexadecimal? (cs : List Char) : Option Nat := numeral? 16 isHexadecimal cs

def withoutPlus : List Char → List Char
  | '+' :: rest => rest
  | cs => cs

def signed : List Char → Bool × List Char
  | '+' :: rest => (false, rest)
  | '-' :: rest => (true, rest)
  | cs => (false, cs)

def minusSigned : List Char → Bool × List Char
  | '-' :: rest => (true, rest)
  | cs => (false, cs)

def negated (negative : Bool) (n : Nat) : Int := if negative then -(n : Int) else n

def decimal (n : Nat) : List Char := Nat.toDigits 10 n

def hexadecimal (n : Nat) : List Char := Nat.toDigits 16 n

def decimalInteger (n : Int) : List Char :=
  if n < 0 then '-' :: decimal n.natAbs else decimal n.natAbs

end TypedContracts.Digits
