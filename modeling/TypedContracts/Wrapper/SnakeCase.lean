import TypedContracts.Number.Digits
import TypedContracts.Text.LetterCase

/-!
Names in words of lower-case letters joined by underscores. A capital begins a word after a
lower-case letter or digit, and after a capital when a lower-case letter follows.
-/
namespace TypedContracts.Wrapper
open TypedContracts.Text

/-- Whether a capital between these two characters begins a word. -/
def beginsWord (previous next : Option Char) : Bool :=
  match previous with
  | none => false
  | some p => isLowercase p || Digits.isDecimal p || (isUppercase p && next.any isLowercase)

def snakeFrom (previous : Option Char) : List Char → List Char
  | [] => []
  | c :: rest =>
    let here :=
      if isUppercase c then
        if beginsWord previous rest.head? then '_' :: lower c else lower c
      else [c]
    here ++ snakeFrom (some c) rest

def snakeCase (name : String) : String := String.ofList (snakeFrom none name.toList)

end TypedContracts.Wrapper
