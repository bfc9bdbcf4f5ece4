import TypedContracts.SExp.Basic
import TypedContracts.SExp.Lexeme

/-!
Trees from lexemes. The lists still open are kept on a stack, the innermost first, so nesting costs
no recursion; the first lexeme that cannot be placed decides the fault. At the end of the text, an
open list is missing its bracket, and a reader that has no list open is missing an expression.
-/
namespace TypedContracts.SExp
open TypedContracts.Text

/-- A list whose closing bracket is still to come; its items are held last one first. -/
structure Opened where
  pos : Position
  items : List SExp

def Opened.push (o : Opened) (item : SExp) : Opened := ⟨o.pos, item :: o.items⟩

def Opened.close (o : Opened) : SExp := .list o.items.reverse

def alone (tree : SExp) : List Lexeme → Except Fault SExp
  | [] => .ok tree
  | next :: _ => .error (.trailing next.pos)

/-- Places the lexemes of a text that ends at `ending`. -/
def assemble (ending : Position) : List Opened → List Lexeme → Except Fault SExp
  | [], [] => .error (.unexpectedEnd ending)
  | inner :: _, [] => .error (.unterminatedList inner.pos)
  | _, ⟨_, .fault cause⟩ :: _ => .error cause
  | stack, ⟨pos, .opening⟩ :: rest => assemble ending (⟨pos, []⟩ :: stack) rest
  | [], ⟨pos, .closing⟩ :: _ => .error (.unexpectedClose pos)
  | [inner], ⟨_, .closing⟩ :: rest => alone inner.close rest
  | inner :: outer :: stack, ⟨_, .closing⟩ :: rest =>
    assemble ending (outer.push inner.close :: stack) rest
  | [], ⟨_, .atom text⟩ :: rest => alone (.atom text) rest
  | inner :: stack, ⟨_, .atom text⟩ :: rest =>
    assemble ending (inner.push (.atom text) :: stack) rest

def single (ending : Position) : List Lexeme → Except Fault SExp
  | [] => .error .empty
  | found => assemble ending [] found

def parse (text : String) : Except Fault SExp :=
  let scan := Scan.start.read text.toList
  single scan.pos scan.lexemes

end TypedContracts.SExp
