import TypedContracts.Settings.Setting
import TypedContracts.Text.Blank

/-!
Plain settings files: one entry or table header a line, keys of names joined by dots, and texts,
integers and truth values. A name is given a value once, and a table is opened once. A reader of a
part of a line comes back with the rest of the line.
-/
namespace TypedContracts.Toml

def skipGaps (cs : List Char) : List Char := cs.dropWhile Text.isGap

def isPlain (c : Char) : Bool := c == '\t' || (decide (0x20 ≤ c.toNat) && c.toNat != 0x7f)

def endsHere (cs : List Char) : Bool :=
  match skipGaps cs with
  | [] => true
  | '#' :: comment => comment.all fun c => c == '\t' || decide (0x20 ≤ c.toNat)
  | _ => false

def isBareChar (c : Char) : Bool := c.isAlphanum || c == '-' || c == '_'

def shortEscape? : Char → Option Char
  | 'b' => some (Char.ofNat 8)
  | 't' => some '\t'
  | 'n' => some '\n'
  | 'f' => some (Char.ofNat 12)
  | 'r' => some '\r'
  | '"' => some '"'
  | '\\' => some '\\'
  | _ => none

def scalar? (n : Nat) : Option Char := if n.isValidChar then some (Char.ofNat n) else none

/-- A text with escapes, or the digits of one of its escapes, of which `left` more are to come. -/
inductive Quoting where
  | plain
  | escape
  | digits (left value : Nat)
deriving DecidableEq, Repr

def basicText (read : List Char) : Quoting → List Char → Option (String × List Char)
  | _, [] => none
  | .plain, c :: rest =>
    if c = '"' then some (String.ofList read.reverse, rest)
    else if c = '\\' then basicText read .escape rest
    else if isPlain c then basicText (c :: read) .plain rest
    else none
  | .escape, c :: rest =>
    if c = 'u' then basicText read (.digits 4 0) rest
    else if c = 'U' then basicText read (.digits 8 0) rest
    else match shortEscape? c with
      | some d => basicText (d :: read) .plain rest
      | none => none
  | .digits left value, c :: rest =>
    if !Digits.isHexadecimal c then none
    else if 1 < left then basicText read (.digits (left - 1) (value * 16 + Digits.value c)) rest
    else match scalar? (value * 16 + Digits.value c) with
      | some d => basicText (d :: read) .plain rest
      | none => none

def literalText (cs : List Char) : Option (String × List Char) :=
  let body := cs.takeWhile (· != '\'')
  match cs.dropWhile (· != '\'') with
  | _ :: rest => if body.all isPlain then some (String.ofList body, rest) else none
  | [] => none

def name? (cs : List Char) : Option (String × List Char) :=
  match cs with
  | '"' :: rest => basicText [] .plain rest
  | '\'' :: rest => literalText rest
  | _ =>
    let bare := cs.takeWhile isBareChar
    if bare.isEmpty then none else some (String.ofList bare, cs.dropWhile isBareChar)

def namesWithin : Nat → List Char → Option (List String × List Char)
  | 0, _ => none
  | fuel + 1, cs => do
    let (name, rest) ← name? (skipGaps cs)
    match skipGaps rest with
    | '.' :: more =>
      let (names, rest) ← namesWithin fuel more
      some (name :: names, rest)
    | rest => some ([name], rest)

def names? (cs : List Char) : Option (List String × List Char) := namesWithin (cs.length + 1) cs

def groupedDigits? (isDigit : Char → Bool) (cs : List Char) : Option (List Char) :=
  let groups := Text.splitAt (· == '_') cs
  if groups.all (fun g => !g.isEmpty && g.all isDigit) then some groups.flatten else none

def wholeDigits? (cs : List Char) : Option (List Char) := do
  let digits ← groupedDigits? Digits.isDecimal cs
  if digits.head? = some '0' ∧ 1 < digits.length then none else some digits

def decimalInteger? (cs : List Char) : Option Int := do
  let (negative, cs) := Digits.minusSigned cs
  some (Digits.negated negative (Digits.numeral 10 (← wholeDigits? cs)))

def base? : Char → Option (Nat × (Char → Bool))
  | 'x' => some (16, Digits.isHexadecimal)
  | 'o' => some (8, fun c => Digits.isDecimal c && Digits.value c < 8)
  | 'b' => some (2, fun c => Digits.isDecimal c && Digits.value c < 2)
  | _ => none

def markedInteger? : List Char → Option Int
  | '0' :: mark :: cs => do
    let (base, isDigit) ← base? mark
    return Digits.numeral base (← groupedDigits? isDigit cs)
  | _ => none

def integer? (cs : List Char) : Option Setting :=
  let cs := Digits.withoutPlus cs
  ((markedInteger? cs <|> decimalInteger? cs) >>= Word.signed? Word.count64).map .integer

def isWordChar (c : Char) : Bool := isBareChar c || c == '+'

def value? (cs : List Char) : Option (Setting × List Char) :=
  match cs with
  | '"' :: rest => (basicText [] .plain rest).map fun (t, rest) => (.text t, rest)
  | '\'' :: rest => (literalText rest).map fun (t, rest) => (.text t, rest)
  | _ =>
    let word := cs.takeWhile isWordChar
    let rest := cs.dropWhile isWordChar
    if word = "true".toList then some (.bool true, rest)
    else if word = "false".toList then some (.bool false, rest)
    else (integer? word).map fun n => (n, rest)

inductive Line where
  | blank
  | header (path : List String)
  | entry (path : List String) (value : Setting)

def headerLine? (cs : List Char) : Option Line := do
  match ← names? cs with
  | (path, ']' :: rest) => if endsHere rest then some (.header path) else none
  | _ => none

def entryLine? (cs : List Char) : Option Line := do
  match ← names? cs with
  | (path, '=' :: rest) =>
    let (value, rest) ← value? (skipGaps rest)
    if endsHere rest then some (.entry path value) else none
  | _ => none

def line? (cs : List Char) : Option Line :=
  if endsHere cs then some .blank
  else match skipGaps cs with
    | '[' :: rest => headerLine? rest
    | cs => entryLine? cs

def putNew (value : Setting) : List String → Setting → Option Setting
  | [], _ => none
  | [key], s =>
    match s.member? key with
    | none => some (s.withMember key value)
    | some _ => none
  | key :: rest, s =>
    match s.member? key with
    | none => (putNew value rest .emptyTable).map (s.withMember key ·)
    | some (.table ms) => (putNew value rest (.table ms)).map (s.withMember key ·)
    | some _ => none

/-- What has been read, the open table, and the tables that may not be opened any more. -/
structure Document where
  root : Setting
  current : List String
  closed : List (List String)

namespace Document

def empty : Document := ⟨.emptyTable, [], []⟩

def at? (d : Document) (path : List String) : Option Setting :=
  path.foldlM (fun s key => s.member? key) d.root

/-- A table that stands already may be opened if only headers of tables below it made it. -/
def openTable (d : Document) (path : List String) : Option Document :=
  if d.closed.contains path then none
  else match d.at? path with
    | some (.table _) => some { d with current := path, closed := path :: d.closed }
    | some _ => none
    | none => (putNew .emptyTable path d.root).map fun root =>
      ⟨root, path, path :: d.closed⟩

def through (current : List String) : List String → List (List String)
  | [] => []
  | [_] => []
  | key :: rest => (current ++ [key]) :: through (current ++ [key]) rest

def add (d : Document) : Line → Option Document
  | .blank => some d
  | .header path => d.openTable path
  | .entry path value => (putNew value (d.current ++ path) d.root).map fun root =>
    { d with root, closed := through d.current path ++ d.closed }

end Document

def byteOrderMark : Char := Char.ofNat 0xfeff

def parse? (text : String) : Option Setting := do
  let cs := match text.toList with
    | c :: rest => if c = byteOrderMark then rest else c :: rest
    | [] => []
  let d ← (Text.lines cs).foldlM (fun d line => do d.add (← line? line)) Document.empty
  some d.root

end TypedContracts.Toml
