import TypedContracts.Toolchain.Command

/-!
Programs that do what they are told to: print their arguments, a file and fixed text, and exit.
-/
namespace TypedContracts

structure ScriptedProgram where
  code : Nat
  output : String
  errors : String
  printsArguments : Bool
  printsFile : Bool
deriving DecidableEq, Repr

namespace ScriptedProgram

def lastFile (files : Files) (arguments : List String) : List UInt8 :=
  match arguments.getLast? with
  | some path => ((files.content path).toOption).getD []
  | none => []

def run (p : ScriptedProgram) (files : Files) (arguments : List String) : Finished where
  code := p.code
  output :=
    (if p.printsArguments then arguments.flatMap fun a => Text.Utf8.bytesOf (a ++ "\n") else []) ++
    (if p.printsFile then lastFile files arguments else []) ++ Text.Utf8.bytesOf p.output
  errors := Text.Utf8.bytesOf p.errors

def table (programs : List (String × ScriptedProgram)) (files : Files) : Programs :=
  fun name arguments => (programs.lookup name).map fun p => p.run files arguments

end ScriptedProgram
end TypedContracts
