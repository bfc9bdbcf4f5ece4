import TypedContracts.Chain.Transaction
import TypedContracts.Number.Digits
import TypedContracts.Number.Word

/-!
The error codes of a receipt in words, one group for each call depth, the shallowest first.
-/
namespace TypedContracts

def failureNames : List String :=
  ["CHECKER_FAILED", "RUNNER_FAILED", "BALANCE_TRANSFER_FAILED", "EXECUTE_CMD_FAILED",
   "EXECUTE_CMD_TIMEOUT", "NO_GAS_REMAINING_FOUND", "NO_ACCEPTED_FOUND", "CALL_CONTRACT_FAILED",
   "CREATE_CONTRACT_FAILED", "JSON_OUTPUT_CORRUPTED", "CONTRACT_NOT_EXIST", "STATE_CORRUPTED",
   "LOG_ENTRY_INSTALL_FAILED", "MESSAGE_CORRUPTED", "RECEIPT_IS_NULL", "MAX_EDGES_REACHED",
   "CHAIN_CALL_DIFF_SHARD", "PREPARATION_FAILED", "NO_OUTPUT", "OUTPUT_ILLEGAL",
   "MAP_DEPTH_MISSING", "GAS_NOT_SUFFICIENT", "INTERNAL_ERROR", "LIBRARY_AS_RECIPIENT",
   "VERSION_INCONSISTENT", "LIBRARY_EXTRACTION_FAILED"]

def failureName (code : Nat) : String := failureNames[code]?.getD "UNKNOWN"

def failureText (code : Nat) : String := toString code ++ " (" ++ failureName code ++ ")"

def deepest : Nat := Word.count32 - 1

/-- A call depth is a decimal number of 32 bits; any other key counts as the deepest. -/
def callDepth (key : String) : Nat :=
  match Digits.decimal? (Digits.withoutPlus key.toList) with
  | some depth => min depth deepest
  | none => deepest

/-- The groups by depth; groups of one depth keep the order of their keys. -/
def failureGroups (r : Receipt) : List (String × List Nat) :=
  r.errors.mergeSort fun a b => decide (callDepth a.1 ≤ callDepth b.1)

namespace Transaction

def failures (t : Transaction) : List (List String) :=
  match t.receipt with
  | some r => (failureGroups r).map fun g => g.2.map failureText
  | none => []

def failureSummary (t : Transaction) : String :=
  String.join (t.failures.map fun group => "[" ++ String.intercalate "," group ++ "] ")

end Transaction
end TypedContracts
