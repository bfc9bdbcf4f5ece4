import TypedContracts.Json.Lexeme
import TypedContracts.Json.Raw

/-!
Reading JSON text. A machine over lexemes keeps the open arrays and objects on a stack. Text that is
badly written is refused without a reason given, and so is a value of which a part has none.
-/
namespace TypedContracts.Json

inductive Frame where
  | items (read : List Raw)
  | members (read : List (Option String × Raw)) (key : Option String)

inductive Expect where
  | value
  | valueOrClose
  | comma
  | keyOrClose (read : List (Option String × Raw))
  | key (read : List (Option String × Raw))
  | colon (read : List (Option String × Raw)) (key : Option String)
  | nothing (value : Raw)

def settle (value : Raw) : List Frame → Expect × List Frame
  | [] => (.nothing value, [])
  | .items read :: stack => (.comma, .items (value :: read) :: stack)
  | .members read key :: stack => (.comma, .members ((key, value) :: read) key :: stack)

/-- Settles an array or object inside the open ones; in `limit` of them it has no value. -/
def close (limit : Nat) (value : Raw) (stack : List Frame) : Expect × List Frame :=
  settle (if stack.length < limit then value else .leaf none) stack

def openValue (lexeme : Lexeme) (stack : List Frame) : Option (Expect × List Frame) :=
  match lexeme with
  | .scalar value => some (settle (.leaf value) stack)
  | .text value => some (settle (.leaf (value.map .text)) stack)
  | .openArray => some (.valueOrClose, .items [] :: stack)
  | .openObject => some (.keyOrClose [], stack)
  | _ => none

def accept (limit : Nat) (lexeme : Lexeme) : Expect × List Frame → Option (Expect × List Frame)
  | (.value, stack) => openValue lexeme stack
  | (.valueOrClose, stack) =>
    match lexeme, stack with
    | .closeArray, .items read :: outer => some (close limit (.array read.reverse) outer)
    | other, stack => openValue other stack
  | (.comma, stack) =>
    match lexeme, stack with
    | .comma, .items read :: outer => some (.value, .items read :: outer)
    | .comma, .members read _ :: outer => some (.key read, outer)
    | .closeArray, .items read :: outer => some (close limit (.array read.reverse) outer)
    | .closeObject, .members read _ :: outer => some (close limit (.object read.reverse) outer)
    | _, _ => none
  | (.keyOrClose read, stack) =>
    match lexeme with
    | .closeObject => some (close limit (.object read.reverse) stack)
    | .text key => some (.colon read key, stack)
    | _ => none
  | (.key read, stack) =>
    match lexeme with
    | .text key => some (.colon read key, stack)
    | _ => none
  | (.colon read key, stack) =>
    match lexeme with
    | .colon => some (.value, .members read key :: stack)
    | _ => none
  | (.nothing _, _) => none

/-- Arrays and objects that have a value may be nested this deep in a stored file. -/
def depthLimit : Nat := 127

def Raw.parseWithin? (limit : Nat) (text : String) : Option Raw := do
  let state ← (lexemes text.toList).foldlM (fun state lexeme => accept limit lexeme state)
    (Expect.value, [])
  match state with
  | (.nothing value, []) => some value
  | _ => none

def Raw.parse? (text : String) : Option Raw := parseWithin? depthLimit text

def parseWithin? (limit : Nat) (text : String) : Option Json :=
  Raw.parseWithin? limit text >>= Raw.value?

def parse? (text : String) : Option Json := parseWithin? depthLimit text

end TypedContracts.Json
