import TypedContracts.Text.Blank

/-!
Words of a command line as options and operands. A grammar names the options that one command has.
The words are read from the left, and reading halts where a word does not fit or asks for help.
-/
namespace TypedContracts

inductive Halt where
  | misuse
  | help
  | version
deriving DecidableEq, Repr

/-- Long names of flags and of options with a value, without dashes; `letters` are options with a
value whose name is one letter. `operands` is the greatest number of operands, if there is one.
Where the first operand names a command, reading stops before it. -/
structure OptionGrammar where
  flags : List String
  valued : List String
  letters : List Char
  operands : Option Nat
  namesCommand : Bool
deriving DecidableEq, Repr

structure Given where
  flags : List String
  values : List (String × String)
  operands : List String
deriving DecidableEq, Repr

namespace Given

def nothing : Given := ⟨[], [], []⟩

def has (g : Given) (flag : String) : Bool := g.flags.contains flag

def value? (g : Given) (option : String) : Option String := g.values.lookup option

def withFlag (g : Given) (flag : String) : Except Halt Given :=
  if g.has flag then .error .misuse else .ok { g with flags := g.flags ++ [flag] }

def withValue (g : Given) (option value : String) : Except Halt Given :=
  if value.isEmpty || (g.value? option).isSome then .error .misuse
  else .ok { g with values := g.values ++ [(option, value)] }

def withOperand (g : Given) (most : Option Nat) (operand : String) : Except Halt Given :=
  if operand.isEmpty || (most.any fun n => decide (n ≤ g.operands.length)) then .error .misuse
  else .ok { g with operands := g.operands ++ [operand] }

end Given

inductive OptionWord where
  | escape
  | long (name : String) (value : Option String)
  | short (letter : Char) (rest : List Char)
  | operand
deriving DecidableEq, Repr

namespace OptionWord

def ofLong (cs : List Char) : OptionWord :=
  let name := String.ofList (cs.takeWhile (· != '='))
  match cs.dropWhile (· != '=') with
  | [] => .long name none
  | _ :: value => .long name (some (String.ofList value))

def ofChars : List Char → OptionWord
  | ['-', '-'] => .escape
  | '-' :: '-' :: cs => ofLong cs
  | '-' :: c :: rest => .short c rest
  | _ => .operand

end OptionWord

/-- What has been read, the option that waits for its value, and whether only operands follow. -/
structure OptionScan where
  given : Given
  pending : Option String
  plain : Bool
deriving DecidableEq, Repr

namespace OptionScan

def start : OptionScan := ⟨.nothing, none, false⟩

def withValue (s : OptionScan) (option value : String) : Except Halt OptionScan :=
  (s.given.withValue option value).map fun given => { s with given, pending := none }

def option (s : OptionScan) (name : String) : Option String → Except Halt OptionScan
  | some value => s.withValue name value
  | none => .ok { s with pending := some name }

def long (s : OptionScan) (g : OptionGrammar) (name : String) (value : Option String) :
    Except Halt OptionScan :=
  if g.valued.contains name then s.option name value
  else if value.isSome then .error .misuse
  else if name = "help" then .error .help
  else if name = "version" ∧ g.namesCommand then .error .version
  else if g.flags.contains name then (s.given.withFlag name).map fun given => { s with given }
  else .error .misuse

def attached : List Char → Option String
  | [] => none
  | '=' :: value => some (String.ofList value)
  | value => some (String.ofList value)

def short (s : OptionScan) (g : OptionGrammar) (letter : Char) (rest : List Char) :
    Except Halt OptionScan :=
  if g.letters.contains letter then s.option (String.singleton letter) (attached rest)
  else if letter = 'h' then .error .help
  else if letter = 'V' ∧ g.namesCommand then .error .version
  else .error .misuse

def operand (s : OptionScan) (g : OptionGrammar) (word : String) : Except Halt OptionScan :=
  (s.given.withOperand g.operands word).map fun given => { s with given }

def word (s : OptionScan) (g : OptionGrammar) (w : String) : Except Halt OptionScan :=
  if s.plain then s.operand g w
  else match OptionWord.ofChars w.toList, s.pending with
    | .operand, some name => s.withValue name w
    | _, some _ => .error .misuse
    | .escape, none => .ok { s with plain := true }
    | .long name value, none => s.long g name value
    | .short letter rest, none => s.short g letter rest
    | .operand, none => s.operand g w

def meetsOperand (s : OptionScan) (w : String) : Bool :=
  !s.plain && s.pending.isNone && OptionWord.ofChars w.toList == .operand

def read (g : OptionGrammar) (s : OptionScan) : List String → Except Halt (Given × List String)
  | [] => if s.pending.isSome then .error .misuse else .ok (s.given, [])
  | w :: rest =>
    if g.namesCommand && s.meetsOperand w then .ok (s.given, w :: rest)
    else do read g (← s.word g w) rest

end OptionScan
end TypedContracts
