import TypedContracts.Value.Decoded
import TypedContracts.Value.Encoded
import TypedContracts.Value.Literal

/-!
Arguments as encoded values. A primitive slot takes any scalar and sends its text. A slot of a
user-defined type takes an array with one item for each argument of the type, a literal, or an
application that is already encoded. The first argument at fault decides the error.
-/
namespace TypedContracts.Call
open Json

def scalarText? : Json → Option String
  | .text s => some s
  | .integer n => some (String.ofList (Digits.decimalInteger n))
  | .binary x => some (String.ofList (binaryChars x))
  | .bool true => some "true"
  | .bool false => some "false"
  | .null => none
  | .array _ => none
  | .object _ => none

def encodeFlat (arg : Json) (slot : Field) : Result Encoded :=
  match slot.shape with
  | .unknown => .error (.staleCache slot.label)
  | .primitive _ =>
    match scalarText? arg with
    | some s => .ok (.scalar s)
    | none => .error (.argumentShape (.notScalar slot.label arg))
  | .adt _ types => .error (.argumentShape (.notArray types.length slot.label arg))
  | .map _ _ => .error (.argumentShape (.mapSlot slot.label))

def literalTarget (constructor : String) : String := "constructor " ++ constructor

def literalArity (l : Literal) (found : Nat) : Result Unit :=
  if found = l.types.length then .ok ()
  else .error (.callShape (literalTarget l.constructor) l.types.length found)

mutual
def encode : Json → Field → Result Encoded
  | .array items, ⟨name, type, .adt constructor types⟩ => do
    let slot : Field := ⟨name, type, .adt constructor types⟩
    let arguments ← encodeItems (fun i => .missing i types.length slot.label) 0 items types
    return .application constructor (Field.types types) arguments
  | .object members, ⟨name, type, .adt constructor types⟩ =>
    if members.any (·.1 == "arguments") then
      Result.ofOption .json (Encoded.applicationOfJson? (.object members))
    else if members.any (·.1 == "args") then
      match Literal.ofJson? (.object members) with
      | some l => encodeMember members l
      | none => .error .json
    else encodeFlat (.object members) ⟨name, type, .adt constructor types⟩
  | arg, slot => encodeFlat arg slot
/-- The items by position; items beyond the last type are not looked at. -/
def encodeItems (missing : Nat → ArgumentFault) :
    Nat → List Json → List Field → Result (List Encoded)
  | _, _, [] => .ok []
  | i, [], _ :: _ => .error (.argumentShape (missing i))
  | i, item :: items, type :: types => do
    let value ← encode item type
    let values ← encodeItems missing (i + 1) items types
    return value :: values
def encodeMember : List (String × Json) → Literal → Result Encoded
  | [], _ => .error .json
  | (key, .array items) :: rest, l =>
    if key = "args" then do
      literalArity l items.length
      let arguments ← encodeItems (fun i => .missing i l.types.length "") 0 items l.types
      return .application l.constructor (Field.types l.types) arguments
    else encodeMember rest l
  | (key, value) :: rest, l =>
    if key = "args" then
      match l.types with
      | [type] => do
        let argument ← encode value type
        return .application l.constructor [type.type] [argument]
      | types =>
        if value.isNull && types.isEmpty then .ok (.application l.constructor [] [])
        else .error (.callShape (literalTarget l.constructor) types.length 1)
    else encodeMember rest l
end

def encodeLiteral (l : Literal) : Result Encoded := do
  let items := l.positional
  literalArity l items.length
  let arguments ← encodeItems (fun i => .missing i l.types.length "") 0 items l.types
  return .application l.constructor (Field.types l.types) arguments

def encodeParam (slot : Field) (arg : Json) : Result Param := do
  return ⟨slot.name, slot.type, ← encode arg slot⟩

def encodeArgs (target : String) (params : List Field) (args : List Json) :
    Result (List Param) :=
  if params.length = args.length then
    (params.zip args).mapM fun (slot, arg) => encodeParam slot arg
  else .error (.callShape target params.length args.length)

end TypedContracts.Call
