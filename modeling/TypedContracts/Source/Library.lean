import TypedContracts.Model.Basic
import TypedContracts.Text.Blank

/-!
A library source is never compiled; only its name is looked for, in the first line whose text starts
with the keyword.
-/
namespace TypedContracts.Source
open TypedContracts.Text

def keyword : List Char := "library".toList

/-- The second word of the first line that starts with the keyword, or nothing. -/
def libraryName (source : List Char) : List Char :=
  match (lines source).map trim |>.find? (keyword.isPrefixOf ·) with
  | some line => (words line)[1]?.getD []
  | none => []

def libraryOf (source : String) : Contract where
  name := String.ofList (libraryName source.toList)
  params := none
  fields := []
  components := []
  constructors := []

end TypedContracts.Source
