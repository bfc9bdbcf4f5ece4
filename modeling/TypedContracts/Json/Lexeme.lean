import TypedContracts.Json.Number
import TypedContracts.Text.Surrogates

/-!
The lexemes of JSON text, found by a machine over characters. A text or scalar that is well written
may still have no value; anything badly written is junk.
-/
namespace TypedContracts.Json

inductive Lexeme where
  | openArray
  | closeArray
  | openObject
  | closeObject
  | comma
  | colon
  | text (value : Option String)
  | scalar (value : Option Json)
  | junk

/-- Inside a string: among raw characters, behind a backslash, or in the digits of a `\u` escape. -/
inductive StringBody where
  | plain
  | escaped
  | digits (read : List Char)

inductive LexMode where
  | between
  | word (read : List Char)
  | text (read : List Nat) (body : StringBody)
  | stopped

def isJsonBlank (c : Char) : Bool := c == ' ' || c == '\n' || c == '\t' || c == '\r'

def isWordChar (c : Char) : Bool := c.isAlphanum || c == '+' || c == '-' || c == '.'

def wordLexeme (read : List Char) : Lexeme :=
  let cs := read.reverse
  if cs = "true".toList then .scalar (some (.bool true))
  else if cs = "false".toList then .scalar (some (.bool false))
  else if cs = "null".toList then .scalar (some .null)
  else match Numeral.ofChars? cs with
    | some n => .scalar n.value?
    | none => .junk

def beginLexeme (c : Char) : List Lexeme × LexMode :=
  if isJsonBlank c then ([], .between)
  else match c with
    | '[' => ([.openArray], .between)
    | ']' => ([.closeArray], .between)
    | '\x7b' => ([.openObject], .between)
    | '\x7d' => ([.closeObject], .between)
    | ',' => ([.comma], .between)
    | ':' => ([.colon], .between)
    | '"' => ([], .text [] .plain)
    | _ => if isWordChar c then ([], .word [c]) else ([.junk], .stopped)

def shortEscape? : Char → Option Char
  | '"' => some '"'
  | '\\' => some '\\'
  | '/' => some '/'
  | 'b' => some (Char.ofNat 8)
  | 'f' => some (Char.ofNat 12)
  | 'n' => some '\n'
  | 'r' => some '\r'
  | 't' => some '\t'
  | _ => none

def refuse : List Lexeme × LexMode := ([.junk], .stopped)

def textStep (read : List Nat) (c : Char) : StringBody → List Lexeme × LexMode
  | .plain =>
    if c = '"' then ([.text (Text.Surrogates.text? read)], .between)
    else if c = '\\' then ([], .text read .escaped)
    else if c.toNat < 0x20 then refuse
    else ([], .text (c.toNat :: read) .plain)
  | .escaped =>
    if c = 'u' then ([], .text read (.digits []))
    else match shortEscape? c with
      | some d => ([], .text (d.toNat :: read) .plain)
      | none => refuse
  | .digits ds =>
    if !Digits.isHexadecimal c then refuse
    else if ds.length < 3 then ([], .text read (.digits (ds ++ [c])))
    else ([], .text (Digits.numeral 16 (ds ++ [c]) :: read) .plain)

def lexStep (c : Char) : LexMode → List Lexeme × LexMode
  | .between => beginLexeme c
  | .word read =>
    if isWordChar c then ([], .word (c :: read))
    else
      let (next, mode) := beginLexeme c
      (wordLexeme read :: next, mode)
  | .text read body => textStep read c body
  | .stopped => ([], .stopped)

def lexFinish : LexMode → List Lexeme
  | .between => []
  | .stopped => []
  | .word read => [wordLexeme read]
  | .text _ _ => [.junk]

def lexemes (cs : List Char) : List Lexeme :=
  let (found, mode) := cs.foldl (fun (s : List Lexeme × LexMode) c =>
    let (next, mode) := lexStep c s.2
    (next.reverse ++ s.1, mode)) ([], .between)
  found.reverse ++ lexFinish mode

end TypedContracts.Json
