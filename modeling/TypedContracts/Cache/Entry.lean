import TypedContracts.Error
import TypedContracts.Json.Reader
import TypedContracts.Model.Stored

/-!
A known contract: the model of a source with the hash of the bytes it was made from and the path, or
chain address, it came from.
-/
namespace TypedContracts
open Json
variable {α : Type}

structure Entry where
  hash : String
  path : String
  contract : Contract
deriving DecidableEq, Repr

namespace Entry

def toJson (e : Entry) : Json :=
  .object [("contentHash", .text e.hash), ("path", .text e.path),
    ("parsedContract", e.contract.toJson)]

def read? (form : Form α) (a : α) : Option Entry := do
  match ← form.slots? ["contentHash", "path", "parsedContract"] a with
  | [hash, path, contract] =>
    some ⟨← hash.required form.text?, ← path.required form.text?,
      ← contract.required (Contract.read? form)⟩
  | _ => none

def ofJson? (j : Json) : Option Entry := read? form j

end Entry

abbrev Entries := List (String × Entry)

namespace Entries

def toJson (entries : Entries) : Json := .object (entries.map fun e => (e.1, e.2.toJson))

/-- Of two entries with one key the later counts, but both must be readable. -/
def read? (form : Form α) (a : α) : Option Entries := do
  let entries ← (← form.members? a).mapM fun m => (Entry.read? form m.2).map fun e => (m.1, e)
  return entries.foldl (fun sorted e => insertMember e.1 e.2 sorted) []

def ofJson? (j : Json) : Option Entries := read? form j

def parse? (text : String) : Option Entries := Raw.parse? text >>= read? Raw.form

def byName (entries : Entries) : Result Entries :=
  entries.foldlM (fun named e =>
    match named.lookup e.2.contract.name with
    | some first => .error (.duplicateContractName e.2.contract.name first.path e.2.path)
    | none => .ok (insertMember e.2.contract.name e.2 named)) []

end Entries
end TypedContracts
