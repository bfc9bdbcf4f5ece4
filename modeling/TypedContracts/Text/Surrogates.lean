/-!
Characters named by units of sixteen bits. A first and a second half of a surrogate pair are one
character; a half that stands alone is none. Other characters are units of their own, of any size.
-/
namespace TypedContracts.Text.Surrogates

def isFirstHalf (unit : Nat) : Bool := 0xd800 ≤ unit && unit ≤ 0xdbff

def isSecondHalf (unit : Nat) : Bool := 0xdc00 ≤ unit && unit ≤ 0xdfff

def paired (first second : Nat) : Char :=
  Char.ofNat (0x10000 + (first - 0xd800) * 0x400 + (second - 0xdc00))

/-- Characters gathered from the end, before them perhaps a second half that waits for the first. -/
structure Gathered where
  waiting : Option Nat
  chars : List Char

def Gathered.precede? (g : Gathered) (unit : Nat) : Option Gathered :=
  match g.waiting with
  | some second =>
    if isFirstHalf unit then some ⟨none, paired unit second :: g.chars⟩ else none
  | none =>
    if isSecondHalf unit then some ⟨some unit, g.chars⟩
    else if isFirstHalf unit then none
    else some ⟨none, Char.ofNat unit :: g.chars⟩

def text? (reversed : List Nat) : Option String := do
  let g ← reversed.foldlM Gathered.precede? ⟨none, []⟩
  if g.waiting.isSome then none else some (String.ofList g.chars)

end TypedContracts.Text.Surrogates
