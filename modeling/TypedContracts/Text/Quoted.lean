import TypedContracts.Number.Digits
import TypedContracts.Text.Hidden

/-!
Quoted text: a double quote, the characters with the awkward ones escaped, a double quote.
-/
namespace TypedContracts.Text

def escapeChar (c : Char) : List Char :=
  if c = Char.ofNat 0 then ['\\', '0']
  else if c = '\t' then ['\\', 't']
  else if c = '\n' then ['\\', 'n']
  else if c = '\r' then ['\\', 'r']
  else if c = '"' then ['\\', '"']
  else if c = '\\' then ['\\', '\\']
  else if isHidden c then ['\\', 'u', '\x7b'] ++ Digits.hexadecimal c.toNat ++ ['\x7d']
  else [c]

def quoted (cs : List Char) : List Char := '"' :: cs.flatMap escapeChar ++ ['"']

end TypedContracts.Text
