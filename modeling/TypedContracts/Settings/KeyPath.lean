import TypedContracts.Number.Digits
import TypedContracts.Number.Word
import TypedContracts.Text.Blank

/-!
The name of a setting as a path: a key, then keys behind dots and indices in brackets. A name that
does not read as a path is one key.
-/
namespace TypedContracts

inductive KeyStep where
  | key (name : String)
  | index (value : Int)
deriving DecidableEq, Repr

abbrev KeyPath := List KeyStep

namespace KeyPath

def isKeyChar (c : Char) : Bool := c.isAlphanum || c == ' ' || c == '_' || c == '-'

def index? (cs : List Char) : Option Int :=
  let (negative, digits) := Digits.minusSigned (Text.dropAround Text.isGap cs)
  (Digits.decimal? digits).bind fun n => Word.signed? Word.count64 (Digits.negated negative n)

/-- Inside a key or an index, of which the characters come last one first, or behind a bracket. -/
inductive Part where
  | key (read : List Char)
  | index (read : List Char)
  | closed
deriving DecidableEq, Repr

def Part.begun? (c : Char) : Option Part :=
  if c = '.' then some (.key []) else if c = '[' then some (.index []) else none

def stepsFrom? : Part → List Char → Option KeyPath
  | .key read, [] => if read.isEmpty then none else some [.key (String.ofList read.reverse)]
  | .key read, c :: rest =>
    if isKeyChar c then stepsFrom? (.key (c :: read)) rest
    else if read.isEmpty then none
    else match Part.begun? c with
      | some next => (stepsFrom? next rest).map (.key (String.ofList read.reverse) :: ·)
      | none => none
  | .index _, [] => none
  | .index read, c :: rest =>
    if c = ']' then
      match index? read.reverse with
      | some n => (stepsFrom? .closed rest).map (.index n :: ·)
      | none => none
    else stepsFrom? (.index (c :: read)) rest
  | .closed, [] => some []
  | .closed, c :: rest =>
    match Part.begun? c with
    | some next => stepsFrom? next rest
    | none => none

def ofChars (cs : List Char) : KeyPath :=
  (stepsFrom? (.key []) cs).getD [.key (String.ofList cs)]

end KeyPath
end TypedContracts
