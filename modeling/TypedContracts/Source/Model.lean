import TypedContracts.Dump.Module
import TypedContracts.Files.Tree
import TypedContracts.Source.Find
import TypedContracts.Source.Library

/-!
The model of a source file. A library is read for its name; any other source is dumped by a
compiler and the dump is read. `asked` tells which paths the compiler was given.
-/
namespace TypedContracts

abbrev Compiler := Files → String → Result String

namespace Source

def isLibrary (path : String) : Bool := Path.extension? path == some libraryExtension

def asked (files : Files) (path : String) : List String :=
  if !isLibrary path && files.exists? path then [path] else []

def compiledModel (files : Files) (compiler : Compiler) (path : String) : Result Contract := do
  files.require path
  Dump.read (← compiler files path)

def model (files : Files) (compiler : Compiler) (path : String) : Result Contract :=
  if isLibrary path then (files.readText path).map libraryOf
  else compiledModel files compiler path

end Source
end TypedContracts
