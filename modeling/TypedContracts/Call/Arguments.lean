import TypedContracts.Chain.Params

/-!
The argument list of a call with `expected` parameters: exactly that many values, or one more that
holds transaction overrides.
-/
namespace TypedContracts.Call

def splitArguments (target : String) (expected : Nat) (args : List Json) :
    Result (List Json × Option Overrides) :=
  if args.length = expected then .ok (args, none)
  else if args.length = expected + 1 then
    match args.getLast? >>= Overrides.ofJson? with
    | some overrides => .ok (args.dropLast, some overrides)
    | none => .error (.argumentShape .invalidOverrides)
  else .error (.callShape target expected args.length)

end TypedContracts.Call
