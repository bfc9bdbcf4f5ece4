import TypedContracts.Chain.Transaction
import TypedContracts.Value.Decoded

/-!
Events with their parameters decoded. Integers become numbers, `Bool` a truth value and `Option` its
content; a value without the shape of its type stays as it came. A transaction is searched for an
event by name and by a partial description of its parameters.
-/
namespace TypedContracts
open Json

structure DecodedParam where
  name : String
  type : String
  value : Decoded
deriving DecidableEq, Repr

structure Event where
  name : String
  address : String
  params : List DecodedParam
deriving DecidableEq, Repr

def constructorName? (value : Json) : Option String := do asText? (← value.member? "constructor")

def firstOf (key : String) (value : Json) : Json :=
  match value.member? key with
  | some (.array (item :: _)) => item
  | _ => .null

def decodeOption (value : Json) : Decoded :=
  match constructorName? value with
  | none => .json value
  | some name =>
    if name = "None" then .null
    else
      let content := firstOf "arguments" value
      let type := ((firstOf "argtypes" value).asText?).getD ""
      if content.isNull then .json value
      else match Decoded.ofScalar type content with
        | .ok decoded => decoded
        | .error _ => .json content

def decodeBool (value : Json) : Decoded :=
  match constructorName? value with
  | none => .json value
  | some name => .bool (name == "True")

/-- An integer type decodes as such, then come the types that begin with `Option`, then `Bool`. -/
def decodeParam (type : String) (value : Json) : Decoded :=
  if isIntegerType type then
    match Decoded.ofScalar type value with
    | .ok decoded => decoded
    | .error _ => .json value
  else if "Option".toList.isPrefixOf type.toList then decodeOption value
  else if type = "Bool" then decodeBool value
  else .json value

def Event.ofLog (log : EventLog) : Event where
  name := log.name
  address := log.address
  params := log.params.map fun p => ⟨p.name, p.type, decodeParam p.type p.value⟩

def Event.param? (e : Event) (name : String) : Option Decoded :=
  (e.params.find? (·.name == name)).map (·.value)

/-- A partial description of a parameter; a part that is absent fits anything. -/
structure ParamPattern where
  name : Option String
  type : Option String
  value : Option Decoded
deriving DecidableEq, Repr

def ParamPattern.fits (want : ParamPattern) (p : DecodedParam) : Bool :=
  want.name.all (· == p.name) && want.type.all (· == p.type) && want.value.all (·.same p.value)

namespace Transaction

def event? (t : Transaction) (name : String) : Option Event :=
  (t.events.find? (·.name == name)).map Event.ofLog

def hasEvent (t : Transaction) (name : String) : Bool := t.events.any (·.name == name)

def hasEventWith (t : Transaction) (name : String) (wanted : List ParamPattern) : Bool :=
  match t.event? name with
  | some e => wanted.all fun want => e.params.any want.fits
  | none => false

end Transaction
end TypedContracts
