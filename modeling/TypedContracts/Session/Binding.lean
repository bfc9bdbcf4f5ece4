import TypedContracts.Call.Arguments
import TypedContracts.Call.Encode
import TypedContracts.Chain.Client
import TypedContracts.Session.Context

/-!
A contract bound to an address on the chain. A call is checked and encoded in full before a request
is made of it, so a call at fault sends nothing.
-/
namespace TypedContracts

structure Binding where
  entry : Entry
  address : String
  deployedBy : Option Transaction
  executer : Option String
deriving DecidableEq, Repr

namespace Binding
variable {σ : Type}

def bind (entry : Entry) (address : String) : Binding := ⟨entry, address, none, none⟩

def contract (b : Binding) : Contract := b.entry.contract

def connect (b : Binding) (sender : String) : Binding := { b with executer := some sender }

def connectTo (b : Binding) (ctx : Context) : Binding :=
  match ctx.sender with
  | some sender => b.connect sender
  | none => b

def paramsOf (b : Binding) (transition : String) : Result (List Field) :=
  match b.contract.component? transition with
  | some c => .ok c.params
  | none => .error (.unknownTransition b.contract.name transition)

def callRequest (b : Binding) (ctx : Context) (transition : String) (params : List Field)
    (args : List Json) (overrides : Option Overrides) : Result CallRequest := do
  let encoded ← Call.encodeArgs transition params args
  return ⟨b.address, transition, encoded, ctx.params b.executer overrides, ctx.setup.retry⟩

/-- A last argument too many holds the overrides. -/
def prepare (b : Binding) (ctx : Context) (transition : String) (args : List Json) :
    Result CallRequest := do
  let params ← b.paramsOf transition
  let (args, overrides) ← Call.splitArguments transition params.length args
  b.callRequest ctx transition params args overrides

def prepareWith (b : Binding) (ctx : Context) (transition : String) (args : List Json)
    (overrides : Overrides) : Result CallRequest := do
  let params ← b.paramsOf transition
  b.callRequest ctx transition params args (some overrides)

def submit (client : Client σ) (s : σ) : Result CallRequest → σ × Result Transaction
  | .ok request => client.call s request
  | .error e => (s, .error e)

def invoke (b : Binding) (client : Client σ) (s : σ) (ctx : Context) (transition : String)
    (args : List Json) : σ × Result Transaction :=
  submit client s (b.prepare ctx transition args)

def invokeWith (b : Binding) (client : Client σ) (s : σ) (ctx : Context) (transition : String)
    (args : List Json) (overrides : Overrides) : σ × Result Transaction :=
  submit client s (b.prepareWith ctx transition args overrides)

def unknownField (b : Binding) (name : String) : Error := .unknownField b.contract.name name

def readField (b : Binding) (client : Client σ) (s : σ) (name : String) : Result Decoded := do
  let field ← Result.ofOption (b.unknownField name) (b.contract.field? name)
  let state ← client.state s b.address
  let raw ← Result.ofOption (b.unknownField name) (state.lookup name)
  Decoded.ofScalar field.type raw

def readInitial (b : Binding) (client : Client σ) (s : σ) (name : String) : Result Decoded := do
  let param ← Result.ofOption (b.unknownField name) (b.contract.param? name)
  let init ← client.init s b.address
  let value ← Result.ofOption (b.unknownField name) (init.find? (·.name == name))
  Decoded.ofScalar param.type value.value

end Binding
end TypedContracts
