import TypedContracts.Error
import TypedContracts.Model.Stored

/-!
Literals of user-defined types and the constructors that make them. A literal keeps its arguments
as they came; they are checked when it is encoded.
-/
namespace TypedContracts
open Json

structure Literal where
  constructor : String
  types : List Field
  argument : Json
deriving DecidableEq, Repr

namespace Literal

/-- An array holds the arguments by position; a bare value is the only one, and a null none where
none is due. -/
def positional (l : Literal) : List Json :=
  match l.argument with
  | .array items => items
  | .null => if l.types.isEmpty then [] else [.null]
  | other => [other]

def toJson (l : Literal) : Json :=
  .object [("argtypes", .array (Field.listToJson l.types)), ("args", l.argument),
    ("constructor", .text l.constructor)]

def ofJson? (j : Json) : Option Literal := do
  match ← slots? ["constructor", "argtypes", "args"] j with
  | [constructor, types, argument] =>
    some ⟨← constructor.required asText?, ← types.required Field.listOfJson?,
      ← argument.required some⟩
  | _ => none

end Literal

def Constructor.apply (c : Constructor) (argument : Json) : Literal :=
  ⟨c.name, c.arguments, argument⟩

/-- Constructors by name, sorted; of two with one name the later counts. -/
def constructorTable (constructors : List Constructor) : List (String × Constructor) :=
  constructors.foldl (fun table c => insertMember c.name c table) []

def buildLiteral (constructors : List Constructor) (name : String) (argument : Json) :
    Result Literal :=
  match (constructorTable constructors).lookup name with
  | some c => .ok (c.apply argument)
  | none => .error (.argumentShape (.unknownConstructor name))

end TypedContracts
