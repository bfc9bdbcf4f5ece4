import TypedContracts.Cache.Entry
import TypedContracts.Chain.Setup

/-!
What bindings and deployments need to know: the defaults of requests, the known contracts by name
and the sender of deployments.
-/
namespace TypedContracts

structure Context where
  setup : Setup
  contracts : Entries
  sender : Option String
deriving DecidableEq, Repr

namespace Context

def new (setup : Setup) (contracts : Entries) : Context := ⟨setup, contracts, none⟩

def ofEntries (setup : Setup) (entries : Entries) : Result Context := do
  return new setup (← entries.byName)

def updateSetup (c : Context) (u : SetupUpdate) : Context := { c with setup := c.setup.update u }

def withSender (c : Context) (sender : String) : Context := { c with sender := some sender }

def contract (c : Context) (name : String) : Result Entry :=
  Result.ofOption (.missingContract name) (c.contracts.lookup name)

def params (c : Context) (sender : Option String) (overrides : Option Overrides) : CallParams :=
  Overrides.applyTo overrides { c.setup.callParams with sender }

end Context
end TypedContracts
