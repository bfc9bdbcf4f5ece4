import TypedContracts.Chain.Setup
import TypedContracts.Chain.Transaction
import TypedContracts.Value.Encoded

/-!
Requests to a chain and what answers them. A client is any behaviour with a state of its own: two
operations change the chain, three only look at it.
-/
namespace TypedContracts

structure DeployRequest where
  code : String
  init : List Param
  params : CallParams
  retry : RetryPolicy
deriving DecidableEq, Repr

structure CallRequest where
  address : String
  transition : String
  args : List Param
  params : CallParams
  retry : RetryPolicy
deriving DecidableEq, Repr

inductive Request where
  | deploy (request : DeployRequest)
  | call (request : CallRequest)
deriving DecidableEq, Repr

structure Client (σ : Type) where
  deploy : σ → DeployRequest → σ × Result (Transaction × String)
  call : σ → CallRequest → σ × Result Transaction
  state : σ → String → Result (List (String × Json))
  init : σ → String → Result (List NamedValue)
  code : σ → String → Result (Option String)

end TypedContracts
