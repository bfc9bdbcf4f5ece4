import TypedContracts.Json.Number

/-!
JSON text: `compact` without a blank, `pretty` with one member a line and two blanks a level.
-/
namespace TypedContracts.Json

def lowHexadecimal (n : Nat) : List Char :=
  let digits := Digits.hexadecimal n
  zeros (4 - digits.length) ++ digits

def escapeChar (c : Char) : List Char :=
  if c = '"' then ['\\', '"']
  else if c = '\\' then ['\\', '\\']
  else if c = '\n' then ['\\', 'n']
  else if c = '\r' then ['\\', 'r']
  else if c = '\t' then ['\\', 't']
  else if c = Char.ofNat 8 then ['\\', 'b']
  else if c = Char.ofNat 12 then ['\\', 'f']
  else if c.toNat < 0x20 then ['\\', 'u'] ++ lowHexadecimal c.toNat
  else [c]

def textChars (s : String) : List Char := '"' :: s.toList.flatMap escapeChar ++ ['"']

def scalarChars : Json → List Char
  | .null => "null".toList
  | .bool true => "true".toList
  | .bool false => "false".toList
  | .integer n => Digits.decimalInteger n
  | .binary x => binaryChars x
  | .text s => textChars s
  | .array _ => ['[', ']']
  | .object _ => ['\x7b', '\x7d']

mutual
def compactChars : Json → List Char
  | .array [] => ['[', ']']
  | .array (item :: rest) => '[' :: (compactChars item ++ compactItems rest)
  | .object [] => ['\x7b', '\x7d']
  | .object ((key, value) :: rest) =>
    '\x7b' :: (textChars key ++ ':' :: (compactChars value ++ compactMembers rest))
  | other => scalarChars other
def compactItems : List Json → List Char
  | [] => [']']
  | item :: rest => ',' :: (compactChars item ++ compactItems rest)
def compactMembers : List (String × Json) → List Char
  | [] => ['\x7d']
  | (key, value) :: rest =>
    ',' :: (textChars key ++ ':' :: (compactChars value ++ compactMembers rest))
end

def compact (j : Json) : String := String.ofList (compactChars j)

def newline (level : Nat) : List Char := '\n' :: List.replicate (2 * level) ' '

mutual
def prettyChars (level : Nat) : Json → List Char
  | .array [] => ['[', ']']
  | .array (item :: rest) =>
    '[' :: (newline (level + 1) ++ prettyChars (level + 1) item ++ prettyItems level rest)
  | .object [] => ['\x7b', '\x7d']
  | .object ((key, value) :: rest) =>
    '\x7b' :: (newline (level + 1) ++ textChars key ++ [':', ' '] ++
      prettyChars (level + 1) value ++ prettyMembers level rest)
  | other => scalarChars other
def prettyItems (level : Nat) : List Json → List Char
  | [] => newline level ++ [']']
  | item :: rest =>
    ',' :: (newline (level + 1) ++ prettyChars (level + 1) item ++ prettyItems level rest)
def prettyMembers (level : Nat) : List (String × Json) → List Char
  | [] => newline level ++ ['\x7d']
  | (key, value) :: rest =>
    ',' :: (newline (level + 1) ++ textChars key ++ [':', ' '] ++
      prettyChars (level + 1) value ++ prettyMembers level rest)
end

def pretty (j : Json) : String := String.ofList (prettyChars 0 j)

end TypedContracts.Json
