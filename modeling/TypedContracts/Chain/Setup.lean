import TypedContracts.Chain.Params
import TypedContracts.Settings.Basic

/-!
Defaults for every request to one chain, made from settings and changed by partial updates.
-/
namespace TypedContracts
open Json

structure Setup where
  chainId : Nat
  version : Nat
  attempts : Nat
  timeout : Nat
  gasPrice : Nat
  gasLimit : Nat
deriving DecidableEq, Repr

def unitsPerPrice : Nat := 1000000

/-- The chain's number in the upper half of a 32-bit word, above the message format's number. -/
def messageVersion (chainId : Nat) : Nat := (chainId * 0x10000 + 1) % Word.count32

namespace Setup

/-- A chain's number has fifteen bits. -/
def chainCount : Nat := 0x8000

def ofTransactions (chainId : Nat) (t : TransactionSettings) : Setup where
  chainId := chainId % chainCount
  version := messageVersion (chainId % chainCount)
  attempts := t.attempts
  timeout := t.timeout
  gasPrice := t.gasPrice * unitsPerPrice
  gasLimit := t.gasLimit

def ofChain (chainId : Nat) : Setup := ofTransactions chainId .default

def ofSettings (s : Settings) : Setup := ofTransactions s.network.chainId s.transactions

def callParams (s : Setup) : CallParams := ⟨s.version, 0, s.gasPrice, s.gasLimit, none, none⟩

def retry (s : Setup) : RetryPolicy := ⟨s.attempts, s.timeout⟩

end Setup

structure SetupUpdate where
  gasPrice : Option Nat
  gasLimit : Option Nat
  attempts : Option Nat
  timeout : Option Nat
deriving DecidableEq, Repr

def Setup.update (s : Setup) (u : SetupUpdate) : Setup :=
  { s with
    gasPrice := (u.gasPrice.map (· * unitsPerPrice)).getD s.gasPrice
    gasLimit := u.gasLimit.getD s.gasLimit
    attempts := u.attempts.getD s.attempts
    timeout := u.timeout.getD s.timeout }

end TypedContracts
