import TypedContracts.SExp.Lexeme
import TypedContracts.SExp.Basic
import TypedContracts.Text.Quoted

/-!
One-line text of a tree: items apart by one space, and an atom quoted when it is empty or holds a
delimiter.
-/
namespace TypedContracts.SExp
open TypedContracts.Text

def needsQuotes (cs : List Char) : Bool := cs.isEmpty || cs.any isDelimiter

def renderAtom (cs : List Char) : List Char := if needsQuotes cs then quoted cs else cs

mutual
def renderChars : SExp → List Char
  | .atom text => renderAtom text.toList
  | .list items => '(' :: renderItems items
def renderItems : List SExp → List Char
  | [] => [')']
  | item :: rest => renderChars item ++ renderRest rest
def renderRest : List SExp → List Char
  | [] => [')']
  | item :: rest => ' ' :: (renderChars item ++ renderRest rest)
end

def render (tree : SExp) : String := String.ofList (renderChars tree)

end TypedContracts.SExp
