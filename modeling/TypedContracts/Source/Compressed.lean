import TypedContracts.Text.Blank

/-!
Source text without comments, trailing blanks and empty lines. Comments nest and an unclosed one
runs to the end; a string runs to the next double quote that no backslash precedes.
-/
namespace TypedContracts.Source
open TypedContracts.Text

/-- In code, in a string, or in a comment with `outer` comments around it. -/
inductive Region where
  | code
  | string
  | comment (outer : Nat)
deriving DecidableEq, Repr

def leave : Nat → Region
  | 0 => .code
  | outer + 1 => .comment outer

/-- The text outside comments, with the line ends inside them. -/
def stripComments : Region → List Char → List Char
  | _, [] => []
  | .code, '(' :: '*' :: rest => stripComments (.comment 0) rest
  | .code, c :: rest => c :: stripComments (if c = '"' then .string else .code) rest
  | .string, '\\' :: c :: rest => '\\' :: c :: stripComments .string rest
  | .string, c :: rest => c :: stripComments (if c = '"' then .code else .string) rest
  | .comment outer, '(' :: '*' :: rest => stripComments (.comment (outer + 1)) rest
  | .comment outer, '*' :: ')' :: rest => stripComments (leave outer) rest
  | .comment outer, c :: rest =>
    if c = '\n' then '\n' :: stripComments (.comment outer) rest
    else stripComments (.comment outer) rest

def compressLines (cs : List Char) : List (List Char) :=
  ((lines cs).map trimEnd).filter fun line => !line.isEmpty

def compressChars (code : List Char) : List Char :=
  joinWith ['\n'] (compressLines (stripComments .code code))

def compress (code : String) : String := String.ofList (compressChars code.toList)

end TypedContracts.Source
