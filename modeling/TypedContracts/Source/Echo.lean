import TypedContracts.Source.Model

/-!
A compiler whose sources are dumps already. Text that starts with a mark makes it fail with what
follows the mark.
-/
namespace TypedContracts.Source

def failMark : String := "!fail "

def echoText (text : String) : Result String :=
  if Text.startsWith failMark text then
    .error (.toolchain (.reported (String.ofList (text.toList.drop failMark.length))))
  else .ok text

def echo : Compiler := fun files path => do echoText (← files.readText path)

end TypedContracts.Source
