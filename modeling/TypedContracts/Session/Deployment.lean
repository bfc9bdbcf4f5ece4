import TypedContracts.Chain.Init
import TypedContracts.Digest.Sha256
import TypedContracts.Dump.Module
import TypedContracts.Files.Tree
import TypedContracts.Session.Binding
import TypedContracts.Source.Compressed

/-!
Deployments. Like a call, a deployment is a request only when the contract is known, the arguments
fit and the source can be read. A deployed contract is bound to its new address.
-/
namespace TypedContracts

def sourceCode (files : Files) (path : String) (compress : Bool) : Result String := do
  let code ← files.readText path
  return if compress then Source.compress code else code

structure DeployOptions where
  libraries : Option (List LinkedLibrary)
  compress : Bool
deriving DecidableEq, Repr

namespace Context
variable {σ : Type}

def deployRequest (ctx : Context) (code : String) (init : List Param)
    (overrides : Option Overrides) : DeployRequest :=
  ⟨code, init, ctx.params ctx.sender overrides, ctx.setup.retry⟩

def prepareDeployWith (ctx : Context) (files : Files) (name : String) (options : DeployOptions)
    (args : List Json) (overrides : Option Overrides) : Result (Entry × DeployRequest) := do
  let entry ← ctx.contract name
  let init ← contractInit name options.libraries entry.contract.paramList args
  let code ← sourceCode files entry.path options.compress
  return (entry, ctx.deployRequest code init overrides)

/-- A contract with a parameter list takes overrides as a last argument too many. -/
def deployArguments (name : String) (params : Option (List Field)) (args : List Json) :
    Result (List Json × Option Overrides) :=
  match params with
  | some params => Call.splitArguments (deploymentTarget name) params.length args
  | none => .ok (args, none)

def prepareDeploy (ctx : Context) (files : Files) (name : String) (options : DeployOptions)
    (args : List Json) : Result (Entry × DeployRequest) := do
  let entry ← ctx.contract name
  let (args, overrides) ← deployArguments name entry.contract.params args
  ctx.prepareDeployWith files name options args overrides

def prepareLibrary (ctx : Context) (files : Files) (name : String) :
    Result (Entry × DeployRequest) := do
  let entry ← ctx.contract name
  let code ← sourceCode files entry.path false
  return (entry, ctx.deployRequest code libraryInit none)

def prepareFile (ctx : Context) (files : Files) (path : String) (init : List Param)
    (overrides : Option Overrides) : Result DeployRequest := do
  let code ← sourceCode files path false
  return ctx.deployRequest code init overrides

def bindDeployed (ctx : Context) (entry : Entry) (t : Transaction) (address : String) : Binding :=
  { (Binding.bind entry address).connectTo ctx with deployedBy := some t }

def submitDeploy (client : Client σ) (s : σ) (ctx : Context) :
    Result (Entry × DeployRequest) → σ × Result Binding
  | .error e => (s, .error e)
  | .ok (entry, request) =>
    match client.deploy s request with
    | (s, .ok (t, address)) => (s, .ok (ctx.bindDeployed entry t address))
    | (s, .error e) => (s, .error e)

def deploy (ctx : Context) (client : Client σ) (s : σ) (files : Files) (name : String)
    (options : DeployOptions) (args : List Json) : σ × Result Binding :=
  submitDeploy client s ctx (ctx.prepareDeploy files name options args)

def deployWith (ctx : Context) (client : Client σ) (s : σ) (files : Files) (name : String)
    (options : DeployOptions) (args : List Json) (overrides : Option Overrides) :
    σ × Result Binding :=
  submitDeploy client s ctx (ctx.prepareDeployWith files name options args overrides)

def deployLibrary (ctx : Context) (client : Client σ) (s : σ) (files : Files) (name : String) :
    σ × Result Binding :=
  submitDeploy client s ctx (ctx.prepareLibrary files name)

/-- Deploys a source that need not be known, with an init list that is ready. -/
def deployFile (ctx : Context) (client : Client σ) (s : σ) (files : Files) (path : String)
    (init : List Param) (overrides : Option Overrides) : σ × Result (Transaction × String) :=
  match ctx.prepareFile files path init overrides with
  | .ok request => client.deploy s request
  | .error e => (s, .error e)

def fromAddress (ctx : Context) (client : Client σ) (s : σ) (dump : String → Result String)
    (address : String) : Result (Option Binding) := do
  match ← client.code s address with
  | none => return none
  | some code =>
    let contract ← Dump.read (← dump code)
    return some ((Binding.bind ⟨Digest.textHash code, address, contract⟩ address).connectTo ctx)

end Context
end TypedContracts
