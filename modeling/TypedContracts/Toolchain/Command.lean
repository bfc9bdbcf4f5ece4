import TypedContracts.Settings.Basic
import TypedContracts.Source.Model

/-!
The external toolchain: one program dumps a source, another checks it. Both run as programs of their
own or inside a container image that sees only the files it is given.
-/
namespace TypedContracts

structure Finished where
  code : Nat
  output : List UInt8
  errors : List UInt8

/-- Runs a program with arguments; a program that does not exist has no result. What else a run does
is up to the monad. -/
abbrev Starter (m : Type → Type) := String → List String → m (Option Finished)

abbrev Programs := Starter Id

inductive Toolchain where
  | native
  | container (image : String)
deriving DecidableEq, Repr

namespace Toolchain

def ofSettings (s : ToolchainSettings) : Toolchain :=
  if s.native then .native else .container s.image

def containerInput : String := "/tmp/input.scilla"

def containerLibrary : String := "/stdlib"

def imageLibrary : String := "/scilla/0/src/stdlib"

def imagePrograms : String := "/scilla/0/bin"

def dumpProgram : String := "scilla-fmt"

def checkProgram : String := "scilla-checker"

def dumpOptions : List String := ["--sexp", "--human-readable"]

def checkOptions (library : String) : List String := ["-gaslimit", "10000", "-libdir", library]

def mount (host container : String) : List String := ["-v", host ++ ":" ++ container]

def containerCommand (image : String) (mounts : List (List String)) (program : String) :
    List String :=
  ["docker", "run", "--rm"] ++ mounts.flatten ++ ["-i", image, imagePrograms ++ "/" ++ program]

def dumpCommand (t : Toolchain) (files : Files) (path : String) : Result (List String) :=
  match t with
  | .native => .ok (dumpProgram :: dumpOptions ++ [path])
  | .container image => do
    let input := mount (← files.canonical path) containerInput
    return containerCommand image [input] dumpProgram ++ dumpOptions ++ [containerInput]

/-- Outside a container there is no library directory to fall back on. -/
def checkCommand (t : Toolchain) (files : Files) (path : String) (library : Option String) :
    Result (List String) :=
  match t, library with
  | .native, none => .error (.toolchain .libraryDirectoryRequired)
  | .native, some library => .ok (checkProgram :: checkOptions library ++ [path])
  | .container image, none => do
    let input := mount (← files.canonical path) containerInput
    return containerCommand image [input] checkProgram ++ checkOptions imageLibrary ++
      [containerInput]
  | .container image, some library => do
    let input := mount (← files.canonical path) containerInput
    let directory := mount (← files.canonical library) containerLibrary
    return containerCommand image [input, directory] checkProgram ++
      checkOptions containerLibrary ++ [containerInput]

def lossyText (bytes : List UInt8) : List Char := Text.Utf8.decodeLossy bytes

def detail (f : Finished) : String :=
  let errors := Text.trim (lossyText f.errors)
  String.ofList (if errors.isEmpty then Text.trim (lossyText f.output) else errors)

def outcome (program : String) : Option Finished → Result String
  | none => .error (.toolchain (.notStarted program .notFound))
  | some f =>
    if f.code = 0 then .ok (String.ofList (lossyText f.output))
    else .error (.toolchain (.exited program f.code (detail f)))

def run {m : Type → Type} [Monad m] (start : Starter m) : List String → m (Result String)
  | [] => return .error (.toolchain (.reported "Empty command line"))
  | program :: arguments =>
    if (program :: arguments).any Text.hasNull then
      return .error (.toolchain (.notStarted program .nullCharacter))
    else return outcome program (← start program arguments)

def runCommand {m : Type → Type} [Monad m] (start : Starter m) :
    Result (List String) → m (Result String)
  | .ok command => run start command
  | .error e => return .error e

def check {m : Type → Type} [Monad m] (t : Toolchain) (start : Starter m) (files : Files)
    (path : String) (library : Option String) : m (Result String) :=
  runCommand start (t.checkCommand files path library)

def compiler (t : Toolchain) (programs : Programs) : Compiler := fun files path =>
  runCommand programs (t.dumpCommand files path)

end Toolchain
end TypedContracts
