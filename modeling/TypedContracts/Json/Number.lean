import TypedContracts.Json.Basic
import TypedContracts.Number.Digits
import TypedContracts.Number.Shortest
import TypedContracts.Number.Word

/-!
The text of a JSON number, both ways. An integer that fits 64 bits stays exact. Any other number is
binary: the digits that fit an unsigned 64-bit word are taken as a whole number and then scaled by
a power of ten, each step rounding; later digits only count places.
-/
namespace TypedContracts.Json

/-- How a binary number is laid out: scientific exponents from `leastPositional` to
`greatestPositional` are written positionally. -/
structure NumberLayout where
  leastPositional : Int
  greatestPositional : Int

def layout : NumberLayout := ⟨-5, 15⟩

def zeros (n : Nat) : List Char := List.replicate n '0'

/-- Digits with a point after the first `places` of them; at least one digit on either side. -/
def positional (digits : List Char) (places : Int) : List Char :=
  if places ≤ 0 then ['0', '.'] ++ zeros (-places).toNat ++ digits
  else if digits.length ≤ places.toNat then
    digits ++ zeros (places.toNat - digits.length) ++ ['.', '0']
  else digits.take places.toNat ++ ['.'] ++ digits.drop places.toNat

def scientific (digits : List Char) (exponent : Int) : List Char :=
  let fraction := match digits.tail with
    | [] => []
    | rest => '.' :: rest
  let sign := if exponent < 0 then '-' else '+'
  digits.take 1 ++ fraction ++ ['e', sign] ++ Digits.decimal exponent.natAbs

def binaryChars (x : Binary64) : List Char :=
  let sign := if x.negative then ['-'] else []
  if x.isZero then sign ++ ['0', '.', '0']
  else
    let d := x.shortest
    let digits := Digits.decimal d.digits
    let places : Int := digits.length + d.exponent
    let exponent := places - 1
    if layout.leastPositional ≤ exponent ∧ exponent ≤ layout.greatestPositional then
      sign ++ positional digits places
    else sign ++ scientific digits exponent

/-- Digits taken into a word, and the places that the others stand for. -/
structure Significand where
  word : Nat
  places : Int
  full : Bool
deriving Repr

/-- Digits before the point: once one does not fit, it and all later ones count a place each. -/
def Significand.whole (s : Significand) (c : Char) : Significand :=
  if s.full || decide (Word.count64 ≤ s.word * 10 + Digits.value c) then
    { s with places := s.places + 1, full := true }
  else { s with word := s.word * 10 + Digits.value c }

/-- Digits after the point: once one does not fit, it and all later ones are dropped. -/
def Significand.fraction (s : Significand) (c : Char) : Significand :=
  if s.full || decide (Word.count64 ≤ s.word * 10 + Digits.value c) then { s with full := true }
  else { s with word := s.word * 10 + Digits.value c, places := s.places - 1 }

def scaleDown (x : Binary64) (places : Nat) : Nat → Option Binary64
  | 0 => some (.zero false)
  | fuel + 1 =>
    if places ≤ 308 then do x.div (← Binary64.powerOfTen places)
    else if x.isZero then some x
    else do scaleDown (← x.div (← Binary64.powerOfTen 308)) (places - 308) fuel

def scaled (word : Nat) (places : Int) : Option Binary64 := do
  let x ← Binary64.ofNat word
  if 0 ≤ places then
    if 308 < places then if x.isZero then some x else none
    else x.mul (← Binary64.powerOfTen places.toNat)
  else scaleDown x (-places).toNat 4

def exponentBound : Nat := 0x80000000

/-- The sign and digits after the exponent mark; an exponent of more than 31 bits is greater than
any place that the digits count. -/
def exponent? (cs : List Char) : Option Int :=
  let (negative, digits) := Digits.signed cs
  (Digits.decimal? digits).map fun n => Digits.negated negative (min n exponentBound)

def binaryMagnitude? (whole fraction : List Char) (exponent : Int) : Option Binary64 :=
  let s := whole.foldl Significand.whole ⟨0, 0, false⟩
  let s := fraction.foldl Significand.fraction { s with full := false }
  scaled s.word (s.places + exponent)

def tail? (cs : List Char) : Option (Option (List Char × Int)) :=
  match cs with
  | [] => some none
  | '.' :: rest =>
    let digits := rest.takeWhile Digits.isDecimal
    if digits.isEmpty then none
    else match rest.dropWhile Digits.isDecimal with
      | [] => some (some (digits, 0))
      | c :: more =>
        if c = 'e' ∨ c = 'E' then (exponent? more).map fun e => some (digits, e) else none
  | c :: more =>
    if c = 'e' ∨ c = 'E' then (exponent? more).map fun e => some ([], e) else none

/-- A number as it is written: its digits before the point, and the digits after it with the
exponent if there is either. -/
structure Numeral where
  negative : Bool
  whole : List Char
  tail : Option (List Char × Int)

/-- Reads a number; a minus sign is the only sign, and a leading zero stands alone. -/
def Numeral.ofChars? (cs : List Char) : Option Numeral := do
  let (negative, cs) := Digits.minusSigned cs
  let whole := cs.takeWhile Digits.isDecimal
  if whole.isEmpty || (whole.head? == some '0' && 1 < whole.length) then none
  return ⟨negative, whole, ← tail? (cs.dropWhile Digits.isDecimal)⟩

def Numeral.value? (n : Numeral) : Option Json := do
  match n.tail with
  | some (fraction, exponent) =>
    return .binary ((← binaryMagnitude? n.whole fraction exponent).withSign n.negative)
  | none =>
    let m := Digits.numeral 10 n.whole
    if n.negative then
      if 0 < m ∧ m ≤ Word.count64 / 2 then return .integer (-(m : Int))
    else if m < Word.count64 then return .integer m
    return .binary ((← binaryMagnitude? n.whole [] 0).withSign n.negative)

end TypedContracts.Json
