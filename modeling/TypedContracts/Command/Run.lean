import TypedContracts.Cache.Store
import TypedContracts.Command.Check
import TypedContracts.Command.Invocation
import TypedContracts.Settings.Layers
import TypedContracts.Source.Compressed
import TypedContracts.Wrapper.Source

/-!
Running a command: what it writes to its two outputs, the files it leaves, and its exit code, which
is 2 when the command cannot be carried out and 1 when what it looked at is faulty.
-/
namespace TypedContracts

structure Response where
  code : Nat
  output : String
  errors : String
  files : Files

def libraryTitle : String := "scilla-core"

def commandTitle : String := "scilla-cli"

def libraryVersion : String := "0.1.0"

namespace Response

def silent (files : Files) : Response := ⟨0, "", "", files⟩

def printed (files : Files) (output : String) : Response := ⟨0, output, "", files⟩

def exitCode : Error → Nat
  | .file _ _ => 2
  | .settings _ => 2
  | .pattern => 2
  | _ => 1

def failed (files : Files) (e : Error) : Response :=
  ⟨exitCode e, "", Listing.lineOf ["error: ", e.message], files⟩

def ofResult (files : Files) : Result Response → Response
  | .ok response => response
  | .error e => failed files e

end Response

namespace Invocation

def versionText : String := Listing.lineOf [commandTitle, " ", libraryVersion]

def versionsText : String :=
  Listing.lineOf [commandTitle, " ", libraryVersion, " (", libraryTitle, " ", libraryVersion, ")"]

def input (files : Files) (compiler : Compiler) (file : String) (isDump : Bool) :
    Result Contract := do
  if isDump then Dump.read (← files.readText file) else Source.model files compiler file

def warning (path : String) : String := Listing.lineOf ["warning: could not parse ", path]

def entriesText (asJson : Bool) (named : Entries) : String :=
  if asJson then Listing.lineOf [named.toJson.pretty] else Listing.entries named

/-- Refreshes a cache and lists it. The files that the refresh wrote stay also when it fails. -/
def contracts (files : Files) (compiler : Compiler) (root cacheFile : String) (asJson : Bool) :
    Response :=
  match files.require root >>= fun () => Cache.load files cacheFile with
  | .error e => .failed files e
  | .ok cache =>
    let (refreshed, files) := cache.refresh files compiler root
    match refreshed.report, refreshed.cache.entries.byName with
    | .error e, _ => .failed files e
    | .ok _, .error e => .failed files e
    | .ok report, .ok named =>
      ⟨if report.failed.isEmpty then 0 else 1, entriesText asJson named,
        String.join (report.failed.map warning), files⟩

def listed (settings : Settings) (files : Files) (paths : List String) : Result (List String) :=
  if paths.isEmpty then CheckRun.contractsBelow files settings.sources.directory else .ok paths

def checked (files : Files) (run : CheckRun) : Response :=
  ⟨if run.succeeded then 0 else 1, run.reports, run.verdicts, files⟩

def check {m : Type → Type} [Monad m] (settings : Settings) (starter : Starter m) (files : Files)
    (paths : List String) (library : Option String) : m Response :=
  match listed settings files paths with
  | .error e => return .failed files e
  | .ok paths => do
    let run ← CheckRun.start (.ofSettings settings.toolchain) starter files
      (library <|> settings.toolchain.libraryDirectory) paths
    return .ofResult files (run.map (checked files))

def compress (files : Files) (file : String) (inPlace : Bool) : Result Response := do
  let code := Source.compress (← files.readText file)
  if inPlace then return .silent (← files.writeText file code)
  else return .printed files (Listing.lineOf [code])

def wrapper (files : Files) (compiler : Compiler) (file : String) (isDump : Bool)
    (target : Option String) : Result Response := do
  let text := Wrapper.sourceText (← input files compiler file isDump)
  match target with
  | some path => return .silent (← files.writeText path text)
  | none => return .printed files text

def runWith (settings : Settings) (programs : Programs) (files : Files) : Command → Response
  | .compile file => .ofResult files do
    files.require file
    return .printed files
      (← (Toolchain.ofSettings settings.toolchain).compiler programs files file)
  | .check paths library => check settings programs files paths library
  | .parse file isDump asJson => .ofResult files do
    let contract ← input files ((Toolchain.ofSettings settings.toolchain).compiler programs) file
      isDump
    return .printed files (if asJson then Listing.lineOf [contract.toJson.pretty]
      else Listing.contract contract)
  | .contracts root cacheFile asJson =>
    contracts files ((Toolchain.ofSettings settings.toolchain).compiler programs)
      (root.getD settings.sources.directory) (cacheFile.getD settings.sources.cacheFile) asJson
  | .hash file => .ofResult files do
    return .printed files (Listing.lineOf [← fileHash files file])
  | .compress file inPlace => .ofResult files (compress files file inPlace)
  | .wrapper file isDump target => .ofResult files
    (wrapper files ((Toolchain.ofSettings settings.toolchain).compiler programs) file isDump target)
  | .version => .printed files versionsText

/-- The settings come first: with faulty ones no command runs. -/
def run (i : Invocation) (files : Files) (env : Environment) (programs : Programs) : Response :=
  match (Settings.build files env i.settingsFile).1 with
  | .error e => .failed files e
  | .ok settings => runWith settings programs files i.command

def helpText : String := String.join
  [Listing.lineOf ["Scilla contract tooling"], "\n",
   Listing.lineOf ["Usage: ", commandTitle, " [OPTIONS] <COMMAND>"], "\n",
   Listing.lineOf ["Commands:"],
   Listing.lineOf ["  compile    Print the S-expression dump of a .scilla file"],
   Listing.lineOf ["  check      Type-check contracts with scilla-checker"],
   Listing.lineOf ["  parse      Parse a contract and print its structure"],
   Listing.lineOf ["  contracts  Refresh the contract cache and list known contracts"],
   Listing.lineOf ["  hash       Compute the content hash (SHA-256) of a source file"],
   Listing.lineOf ["  compress   Strip comments and blank lines from a contract"],
   Listing.lineOf ["  bindgen    Generate typed bindings for a contract"],
   Listing.lineOf ["  version    Show version information"],
   Listing.lineOf ["  help       Print this message or the help of the given subcommand(s)"], "\n",
   Listing.lineOf ["Options:"],
   Listing.lineOf ["      --config <CONFIG>  Settings file (overrides SCILLA__CONFIG)"],
   Listing.lineOf ["      --no-color         Disable colored output"],
   Listing.lineOf ["  -h, --help             Print help"],
   Listing.lineOf ["  -V, --version          Print version"]]

def usageText : String := Listing.lineOf ["Usage: ", commandTitle, " [OPTIONS] <COMMAND>"]

def halted (files : Files) : Halt → Response
  | .misuse => ⟨2, "", usageText, files⟩
  | .help => .printed files helpText
  | .version => .printed files versionText

def runLine (words : List String) (files : Files) (env : Environment) (programs : Programs) :
    Response :=
  match parse words with
  | .error halt => halted files halt
  | .ok invocation => invocation.run files env programs

end Invocation
end TypedContracts
