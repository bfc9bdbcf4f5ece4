import TypedContracts.Command.Options

/-!
What a command line asks for. Options that every command has may stand before the command's name or
after it; of two settings files the one after the name counts.
-/
namespace TypedContracts

inductive Command where
  | compile (file : String)
  | check (files : List String) (library : Option String)
  | parse (file : String) (isDump asJson : Bool)
  | contracts (root cacheFile : Option String) (asJson : Bool)
  | hash (file : String)
  | compress (file : String) (inPlace : Bool)
  | wrapper (file : String) (isDump : Bool) (target : Option String)
  | version
deriving DecidableEq, Repr

structure Invocation where
  settingsFile : Option String
  command : Command
deriving DecidableEq, Repr

namespace Invocation

def commonFlags : List String := ["no-color"]

def commonValued : List String := ["config"]

def mainGrammar : OptionGrammar := ⟨commonFlags, commonValued, [], some 0, true⟩

def grammarOf (flags valued : List String) (operands : Option Nat) : OptionGrammar :=
  ⟨commonFlags ++ flags, commonValued ++ valued, [], operands, false⟩

def grammars : List (String × OptionGrammar) :=
  [("compile", grammarOf [] [] (some 1)),
   ("check", grammarOf [] ["libdir"] none),
   ("parse", grammarOf ["sexp", "json"] [] (some 1)),
   ("contracts", grammarOf ["json"] ["dir", "cache"] (some 0)),
   ("hash", grammarOf [] [] (some 1)),
   ("compress", grammarOf ["write"] [] (some 1)),
   ("bindgen", { grammarOf ["sexp"] [] (some 1) with letters := ['o'] }),
   ("version", grammarOf [] [] (some 0))]

def file? (g : Given) : Except Halt String :=
  match g.operands with
  | [file] => .ok file
  | _ => .error .misuse

def command? (name : String) (g : Given) : Except Halt Command :=
  match name with
  | "compile" => (file? g).map .compile
  | "check" => .ok (.check g.operands (g.value? "libdir"))
  | "parse" => (file? g).map fun file => .parse file (g.has "sexp") (g.has "json")
  | "contracts" => .ok (.contracts (g.value? "dir") (g.value? "cache") (g.has "json"))
  | "hash" => (file? g).map .hash
  | "compress" => (file? g).map fun file => .compress file (g.has "write")
  | "bindgen" => (file? g).map fun file =>
    .wrapper file (g.has "sexp") (g.value? "o")
  | "version" => .ok .version
  | _ => .error .misuse

def helpCommand : String := "help"

def helpHalt (words : List String) : Halt :=
  match words with
  | [] => .help
  | [name] => if name = helpCommand ∨ (grammars.lookup name).isSome then .help else .misuse
  | _ => .misuse

def parse (words : List String) : Except Halt Invocation := do
  match ← OptionScan.start.read mainGrammar words with
  | (_, []) => .error .misuse
  | (before, name :: rest) =>
    if name = helpCommand then .error (helpHalt rest)
    else match grammars.lookup name with
      | none => .error .misuse
      | some grammar =>
        let (g, _) ← OptionScan.start.read grammar rest
        return ⟨g.value? "config" <|> before.value? "config", ← command? name g⟩

end Invocation
end TypedContracts
