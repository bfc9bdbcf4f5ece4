import TypedContracts.Command.Listing
import TypedContracts.Toolchain.Command

/-!
Checking many sources. Unless every file is there nothing is checked at all; a file that fails does
not keep the others from being checked.
-/
namespace TypedContracts

abbrev CheckRun := List (String × Result String)

namespace CheckRun

/-- The contracts below a directory; libraries are checked through contracts that import them. -/
def contractsBelow (files : Files) (directory : String) : Result (List String) := do
  files.require directory
  let found ← Source.search files directory
  return found.filter fun path => Path.extension? path == some Source.contractExtension

def requireAll (files : Files) : List String → Result Unit
  | [] => .ok ()
  | path :: rest => do
    files.require path
    requireAll files rest

def start {m : Type → Type} [Monad m] (t : Toolchain) (starter : Starter m) (files : Files)
    (library : Option String) (paths : List String) : m (Result CheckRun) :=
  match requireAll files paths with
  | .error e => return .error e
  | .ok () => do
    let run ← paths.mapM fun path => do return (path, ← t.check starter files path library)
    return .ok run

def passed (run : CheckRun) : CheckRun := run.filter fun r => r.2.toBool

def reports (run : CheckRun) : String :=
  String.join (run.map fun r => match r.2 with
    | .ok report => report
    | .error _ => "")

def verdict (path : String) : Result String → String
  | .ok _ => Listing.lineOf ["✓ ", path]
  | .error e => Listing.lineOf ["✗ ", path, ": ", e.message]

def summary (run : CheckRun) : String :=
  Listing.lineOf [toString run.passed.length, " of ", toString run.length,
    " contracts checked cleanly"]

def verdicts (run : CheckRun) : String :=
  String.join (run.map fun r => verdict r.1 r.2) ++ (if 1 < run.length then run.summary else "")

def succeeded (run : CheckRun) : Bool := run.passed.length == run.length

end CheckRun
end TypedContracts
