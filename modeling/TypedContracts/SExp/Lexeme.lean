import TypedContracts.Number.Digits
import TypedContracts.Text.Blank
import TypedContracts.Text.Position
import TypedContracts.Text.Utf8

/-!
The lexemes of S-expression text, found by a machine that reads one character at a time: brackets,
bare atoms (longest runs free of blanks, brackets and double quotes) and double-quoted strings.
A string is a run of bytes, given raw or by escapes, and stands for its UTF-8 reading.
A fault is a lexeme too, always the last one; what follows it is not read.
-/
namespace TypedContracts.SExp
open TypedContracts.Text

inductive Fault where
  | empty
  | unexpectedEnd (pos : Position)
  | unexpectedClose (pos : Position)
  | unterminatedList (pos : Position)
  | unterminatedString (pos : Position)
  | unterminatedEscape (pos : Position)
  | invalidEscape (c : Char) (pos : Position)
  | incompleteNumber (pos : Position)
  | escapeOutOfRange (digits : String) (pos : Position)
  | invalidHexadecimal (digits : String) (pos : Position)
  | trailing (pos : Position)
deriving DecidableEq, Repr

def Fault.message : Fault → String
  | .empty => "Empty S-expression input"
  | .unexpectedEnd p => "Unexpected end of input at " ++ p.text
  | .unexpectedClose p => "Unexpected ')' at " ++ p.text
  | .unterminatedList p => "Unterminated list starting at " ++ p.text
  | .unterminatedString p => "Unterminated string starting at " ++ p.text
  | .unterminatedEscape p => "Unterminated escape sequence at " ++ p.text
  | .invalidEscape c p => "Invalid escape sequence '\\" ++ String.singleton c ++ "' at " ++ p.text
  | .incompleteNumber p => "Incomplete numeric escape at " ++ p.text
  | .escapeOutOfRange digits p => "Escape '\\" ++ digits ++ "' out of range at " ++ p.text
  | .invalidHexadecimal digits p => "Invalid escape '\\x" ++ digits ++ "' at " ++ p.text
  | .trailing p => "Trailing input after top-level expression at " ++ p.text

inductive Token where
  | opening
  | closing
  | atom (text : String)
  | fault (cause : Fault)
deriving DecidableEq, Repr

/-- A token with the position of its first character. -/
structure Lexeme where
  pos : Position
  token : Token
deriving DecidableEq, Repr

/-- Inside a string: among raw characters, in the blanks after a line continuation, or within an
escape whose backslash ends at `mark`. -/
inductive Body where
  | plain
  | continued
  | escaped (mark : Position)
  | decimal (mark : Position) (digits : List Char)
  | hexadecimal (mark : Position) (digits : List Char)
deriving DecidableEq, Repr

/-- What is being read; characters and bytes so far are held last one first. -/
inductive Mode where
  | between
  | bare (start : Position) (read : List Char)
  | quoted (start : Position) (bytes : List UInt8) (body : Body)
  | stopped
deriving DecidableEq, Repr

def isDelimiter (c : Char) : Bool := isBlank c || c == '(' || c == ')' || c == '"'

def simpleEscape? : Char → Option UInt8
  | 'n' => some 10
  | 't' => some 9
  | 'r' => some 13
  | 'b' => some 8
  | ' ' => some 32
  | '\\' => some 92
  | '"' => some 34
  | '\'' => some 39
  | _ => none

def bareAtom (read : List Char) : Token := .atom (String.ofList read.reverse)

def quotedAtom (bytes : List UInt8) : Token :=
  .atom (String.ofList (Utf8.decodeLossy bytes.reverse))

def begin (pos : Position) (c : Char) : List Lexeme × Mode :=
  if isBlank c then ([], .between)
  else if c = '(' then ([⟨pos, .opening⟩], .between)
  else if c = ')' then ([⟨pos, .closing⟩], .between)
  else if c = '"' then ([], .quoted pos [] .plain)
  else ([], .bare pos [c])

def rawStep (start : Position) (bytes : List UInt8) (pos : Position) (c : Char) :
    List Lexeme × Mode :=
  if c = '"' then ([⟨start, quotedAtom bytes⟩], .between)
  else if c = '\\' then ([], .quoted start bytes (.escaped (pos.after c)))
  else ([], .quoted start ((String.utf8EncodeChar c).reverse ++ bytes) .plain)

def halt (start : Position) (cause : Fault) : List Lexeme × Mode :=
  ([⟨start, .fault cause⟩], .stopped)

def escapeStep (start : Position) (bytes : List UInt8) (mark : Position) (c : Char) :
    List Lexeme × Mode :=
  match simpleEscape? c with
  | some b => ([], .quoted start (b :: bytes) .plain)
  | none =>
    if c = '\n' then ([], .quoted start bytes .continued)
    else if Digits.isDecimal c then ([], .quoted start bytes (.decimal mark [c]))
    else if c = 'x' then ([], .quoted start bytes (.hexadecimal mark []))
    else halt start (.invalidEscape c mark)

def decimalStep (start : Position) (bytes : List UInt8) (mark : Position) (digits : List Char)
    (c : Char) : List Lexeme × Mode :=
  if Digits.isDecimal c then
    let digits := digits ++ [c]
    if digits.length < 3 then ([], .quoted start bytes (.decimal mark digits))
    else if 255 < Digits.numeral 10 digits then
      halt start (.escapeOutOfRange (String.ofList digits) mark)
    else ([], .quoted start (UInt8.ofNat (Digits.numeral 10 digits) :: bytes) .plain)
  else halt start (.incompleteNumber mark)

def hexadecimalByte? (cs : List Char) : Option UInt8 :=
  (Digits.hexadecimal? (Digits.withoutPlus cs)).bind fun n =>
    if n ≤ 255 then some (UInt8.ofNat n) else none

/-- Two hexadecimal digits name a byte. -/
def hexadecimalStep (start : Position) (bytes : List UInt8) (mark : Position)
    (digits : List Char) (c : Char) : List Lexeme × Mode :=
  if Digits.isHexadecimal c then
    let digits := digits ++ [c]
    if digits.length < 2 then ([], .quoted start bytes (.hexadecimal mark digits))
    else match hexadecimalByte? digits with
      | some byte => ([], .quoted start (byte :: bytes) .plain)
      | none => halt start (.invalidHexadecimal (String.ofList digits) mark)
  else halt start (.incompleteNumber mark)

def step (pos : Position) (c : Char) : Mode → List Lexeme × Mode
  | .between => begin pos c
  | .bare start read =>
    if isDelimiter c then
      let (next, mode) := begin pos c
      (⟨start, bareAtom read⟩ :: next, mode)
    else ([], .bare start (c :: read))
  | .quoted start bytes .plain => rawStep start bytes pos c
  | .quoted start bytes .continued =>
    if c = ' ' ∨ c = '\t' then ([], .quoted start bytes .continued)
    else rawStep start bytes pos c
  | .quoted start bytes (.escaped mark) => escapeStep start bytes mark c
  | .quoted start bytes (.decimal mark digits) => decimalStep start bytes mark digits c
  | .quoted start bytes (.hexadecimal mark digits) => hexadecimalStep start bytes mark digits c
  | .stopped => ([], .stopped)

def finish : Mode → List Lexeme
  | .between => []
  | .stopped => []
  | .bare start read => [⟨start, bareAtom read⟩]
  | .quoted start _ .plain => [⟨start, .fault (.unterminatedString start)⟩]
  | .quoted start _ .continued => [⟨start, .fault (.unterminatedString start)⟩]
  | .quoted start _ (.escaped mark) => [⟨start, .fault (.unterminatedEscape mark)⟩]
  | .quoted start _ (.decimal mark _) => [⟨start, .fault (.incompleteNumber mark)⟩]
  | .quoted start _ (.hexadecimal mark _) => [⟨start, .fault (.incompleteNumber mark)⟩]

structure Scan where
  pos : Position
  mode : Mode
  found : List Lexeme

def Scan.start : Scan := ⟨.origin, .between, []⟩

def Scan.push (s : Scan) (c : Char) : Scan :=
  let (next, mode) := step s.pos c s.mode
  ⟨s.pos.after c, mode, next.reverse ++ s.found⟩

def Scan.read (s : Scan) (cs : List Char) : Scan := cs.foldl Scan.push s

def Scan.lexemes (s : Scan) : List Lexeme := s.found.reverse ++ finish s.mode

def lexemes (cs : List Char) : List Lexeme := (Scan.start.read cs).lexemes

end TypedContracts.SExp
