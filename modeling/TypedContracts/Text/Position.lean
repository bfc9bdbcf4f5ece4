/-!
Line and column of a character, both counted from one.
-/
namespace TypedContracts.Text

structure Position where
  line : Nat
  column : Nat
deriving DecidableEq, Repr

namespace Position

def origin : Position := ⟨1, 1⟩

def after (p : Position) (c : Char) : Position :=
  if c = '\n' then ⟨p.line + 1, 1⟩ else ⟨p.line, p.column + 1⟩

def text (p : Position) : String := toString p.line ++ ":" ++ toString p.column

end Position
end TypedContracts.Text
