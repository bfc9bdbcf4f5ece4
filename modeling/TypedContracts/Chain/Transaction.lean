import TypedContracts.Json.Record

/-!
What the chain answers: named values, event logs, receipts and transactions.
-/
namespace TypedContracts
open Json

structure NamedValue where
  name : String
  type : String
  value : Json
deriving DecidableEq, Repr

structure EventLog where
  name : String
  address : String
  params : List NamedValue
deriving DecidableEq, Repr

/-- Error codes are grouped by call depth; the groups are sorted by the text of the depth. -/
structure Receipt where
  success : Bool
  events : List EventLog
  errors : List (String × List Nat)
  gas : Option String
deriving DecidableEq, Repr

structure Transaction where
  id : String
  receipt : Option Receipt
deriving DecidableEq, Repr

namespace NamedValue

def toJson (v : NamedValue) : Json :=
  .object [("vname", .text v.name), ("type", .text v.type), ("value", v.value)]

def ofJson? (j : Json) : Option NamedValue := do
  match ← slots? ["vname", "type", "value"] j with
  | [name, type, value] =>
    some ⟨← name.required asText?, ← type.required asText?, ← value.required some⟩
  | _ => none

end NamedValue

namespace EventLog

def toJson (e : EventLog) : Json :=
  .object [("_eventname", .text e.name), ("address", .text e.address),
    ("params", .array (e.params.map NamedValue.toJson))]

def ofJson? (j : Json) : Option EventLog := do
  match ← slots? ["_eventname", "address", "params"] j with
  | [name, address, params] =>
    some ⟨← name.required asText?, ← address.orDefault "" asText?,
      ← params.orDefault [] (list? NamedValue.ofJson?)⟩
  | _ => none

end EventLog

namespace Receipt

def codes? : Json → Option (List Nat) := list? word32?

def errors? : Json → Option (List (String × List Nat))
  | .object members => do
    let groups ← members.mapM fun m => (codes? m.2).map fun codes => (m.1, codes)
    some (groups.foldl (fun sorted g => insertMember g.1 g.2 sorted) [])
  | _ => none

def errorsToJson (errors : List (String × List Nat)) : Json :=
  .object (errors.map fun g => (g.1, .array (g.2.map fun (code : Nat) => .integer code)))

def toJson (r : Receipt) : Json :=
  ofMembers [("success", some (.bool r.success)),
    ("event_logs", some (.array (r.events.map EventLog.toJson))),
    ("errors", some (errorsToJson r.errors)), ("cumulative_gas", r.gas.map .text)]

def ofJson? (j : Json) : Option Receipt := do
  match ← slots? ["success", "event_logs", "errors", "cumulative_gas"] j with
  | [success, events, errors, gas] =>
    some ⟨← success.required bool?, ← events.orDefault [] (list? EventLog.ofJson?),
      ← errors.orDefault [] errors?, ← gas.omissible Json.isNull asText?⟩
  | _ => none

end Receipt

namespace Transaction

def toJson (t : Transaction) : Json :=
  .object [("id", .text t.id), ("receipt", (t.receipt.map Receipt.toJson).getD .null)]

def ofJson? (j : Json) : Option Transaction := do
  match ← slots? ["id", "receipt"] j with
  | [id, receipt] =>
    some ⟨← id.required asText?, ← receipt.omissible Json.isNull Receipt.ofJson?⟩
  | _ => none

def isConfirmed (t : Transaction) : Bool := t.receipt.isSome

def succeeded (t : Transaction) : Bool :=
  match t.receipt with
  | some r => r.success
  | none => false

def events (t : Transaction) : List EventLog :=
  match t.receipt with
  | some r => r.events
  | none => []

end Transaction
end TypedContracts
