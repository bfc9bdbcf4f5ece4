import TypedContracts.Session.Deployment

/-!
A deployment put together step by step. Whatever comes of it, deploying leaves an empty draft.
-/
namespace TypedContracts

structure Draft where
  name : String
  options : DeployOptions
  overrides : Option Overrides
  args : List Json
deriving DecidableEq, Repr

namespace Draft
variable {σ : Type}

def empty : Draft := ⟨"", ⟨none, false⟩, none, []⟩

def withName (d : Draft) (name : String) : Draft := { d with name }

def withArgs (d : Draft) (args : List Json) : Draft := { d with args }

def withOverrides (d : Draft) (overrides : Overrides) : Draft :=
  { d with overrides := some overrides }

def withCompression (d : Draft) : Draft := { d with options.compress := true }

def withLibraries (d : Draft) (libraries : List LinkedLibrary) : Draft :=
  { d with options.libraries := some libraries }

def deploy (d : Draft) (ctx : Context) (client : Client σ) (s : σ) (files : Files) :
    Draft × σ × Result Binding :=
  if Text.isBlankText d.name then (empty, s, .error .unnamedDeployment)
  else (empty, ctx.deployWith client s files d.name d.options d.args d.overrides)

end Draft
end TypedContracts
