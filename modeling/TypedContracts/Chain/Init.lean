import TypedContracts.Call.Encode

/-!
Init lists of deployments: the language version, the linked libraries if any, and the deployment
parameters in declared order.
-/
namespace TypedContracts

structure LinkedLibrary where
  name : String
  address : String
deriving DecidableEq, Repr

def versionParam : Param := ⟨"_scilla_version", "Uint32", .scalar "0"⟩

def LinkedLibrary.encoded (l : LinkedLibrary) : Encoded :=
  .application "Pair" ["String", "ByStr20"] [.scalar l.name, .scalar l.address]

def librariesParam (libraries : List LinkedLibrary) : Param :=
  ⟨"_extlibs", "List (Pair String ByStr20)", .list (libraries.map LinkedLibrary.encoded)⟩

def deploymentTarget (name : String) : String := name ++ " deployment"

def contractInit (name : String) (libraries : Option (List LinkedLibrary)) (params : List Field)
    (args : List Json) : Result (List Param) := do
  let values ← Call.encodeArgs (deploymentTarget name) params args
  return versionParam :: ((libraries.map librariesParam).toList ++ values)

def libraryInit : List Param := [versionParam, ⟨"_library", "Bool", .application "True" [] []⟩]

end TypedContracts
