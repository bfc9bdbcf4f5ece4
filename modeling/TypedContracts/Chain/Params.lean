import TypedContracts.Value.Decoded
import TypedContracts.Json.Record

/-!
Transaction parameters: the resolved ones of a request, the overrides that a caller may give, and
the retry policy.
-/
namespace TypedContracts
open Json

structure RetryPolicy where
  attempts : Nat
  interval : Nat
deriving DecidableEq, Repr

structure CallParams where
  version : Nat
  amount : Nat
  gasPrice : Nat
  gasLimit : Nat
  nonce : Option Nat
  sender : Option String
deriving DecidableEq, Repr

structure Overrides where
  amount : Option Nat
  gasPrice : Option Nat
  gasLimit : Option Nat
  nonce : Option Nat
  sender : Option String
  version : Option Nat
deriving DecidableEq, Repr

def decimalText (n : Nat) : Json := .text (String.ofList (Digits.decimal n))

namespace CallParams

def toJson (p : CallParams) : Json :=
  ofMembers [("version", some (.integer p.version)), ("amount", some (.integer p.amount)),
    ("gasPrice", some (.integer p.gasPrice)), ("gasLimit", some (.integer p.gasLimit)),
    ("nonce", p.nonce.map fun n => .integer n), ("pubKey", p.sender.map .text)]

def ofJson? (j : Json) : Option CallParams := do
  match ← slots? ["version", "amount", "gasPrice", "gasLimit", "nonce", "pubKey"] j with
  | [version, amount, gasPrice, gasLimit, nonce, sender] =>
    some ⟨← version.required word32?, ← amount.required word64?, ← gasPrice.required word64?,
      ← gasLimit.required word64?, ← nonce.omissible Json.isNull word64?,
      ← sender.omissible Json.isNull asText?⟩
  | _ => none

end CallParams

/-- Decimal text of a number of at most 128 bits; one plus sign may lead. -/
def readAmountText? (cs : List Char) : Option Nat :=
  match Digits.decimal? (Digits.withoutPlus cs) with
  | some n => Word.natural? Word.count128 n
  | none => none

/-- An amount is a number of 64 bits or text of up to 128. -/
def amount? : Json → Option Nat
  | .text s => readAmountText? s.toList
  | j => word64? j

namespace Overrides

def none : Overrides := ⟨.none, .none, .none, .none, .none, .none⟩

def keys : List String := ["amount", "gasPrice", "gasLimit", "nonce", "pubKey", "version"]

def toJson (o : Overrides) : Json :=
  ofMembers [("amount", o.amount.map decimalText), ("gasPrice", o.gasPrice.map decimalText),
    ("gasLimit", o.gasLimit.map fun n => .integer n), ("nonce", o.nonce.map fun n => .integer n),
    ("pubKey", o.sender.map .text), ("version", o.version.map fun n => .integer n)]

def ofJson? (j : Json) : Option Overrides := do
  match ← strictSlots? keys j with
  | [amount, gasPrice, gasLimit, nonce, sender, version] =>
    some ⟨← amount.omissible Json.isNull amount?, ← gasPrice.omissible Json.isNull amount?,
      ← gasLimit.omissible Json.isNull word64?, ← nonce.omissible Json.isNull word64?,
      ← sender.omissible Json.isNull asText?, ← version.omissible Json.isNull word32?⟩
  | _ => .none

def apply (o : Overrides) (p : CallParams) : CallParams where
  version := o.version.getD p.version
  amount := o.amount.getD p.amount
  gasPrice := o.gasPrice.getD p.gasPrice
  gasLimit := o.gasLimit.getD p.gasLimit
  nonce := o.nonce <|> p.nonce
  sender := o.sender <|> p.sender

def applyTo (o : Option Overrides) (p : CallParams) : CallParams :=
  match o with
  | some o => o.apply p
  | .none => p

end Overrides
end TypedContracts
