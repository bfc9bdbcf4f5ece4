import TypedContracts.Json.Basic

/-!
A tree of files, directories and symbolic links. The entries of a directory are sorted by name.
-/
namespace TypedContracts

inductive Node where
  | file (content : List UInt8)
  | directory (entries : List (String × Node))
  | link (target : String)
deriving Inhabited

namespace Node

/-- The node behind the names, without following links. -/
def lookup? : List String → Node → Option Node
  | [], node => some node
  | name :: names, .directory entries =>
    match entries.lookup name with
    | some child => child.lookup? names
    | none => none
  | _ :: _, _ => none

def remove (name : String) (entries : List (String × Node)) : List (String × Node) :=
  entries.filter (·.1 != name)

/-- Changes what a name of a directory stands for; `none` is no entry. -/
def setEntry (name : String) (value : Option Node) (entries : List (String × Node)) :
    List (String × Node) :=
  match value with
  | some node => Json.insertMember name node entries
  | none => remove name entries

def put (value : Option Node) : List String → Node → Node
  | [], node => value.getD node
  | [name], .directory entries => .directory (setEntry name value entries)
  | name :: names, .directory entries =>
    match entries.lookup name with
    | some child => .directory (setEntry name (some (put value names child)) entries)
    | none => .directory entries
  | _, node => node

mutual
def height : Node → Nat
  | .file _ => 0
  | .link _ => 0
  | .directory entries => heights entries + 1
def heights : List (String × Node) → Nat
  | [] => 0
  | (_, node) :: rest => max node.height (heights rest)
end

def isDirectory : Node → Bool
  | .directory _ => true
  | _ => false

end Node

end TypedContracts
