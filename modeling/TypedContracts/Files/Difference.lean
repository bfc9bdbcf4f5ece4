import TypedContracts.Files.Tree

/-!
What was written between two states of the files.
-/
namespace TypedContracts

namespace Node

def holds (content : List UInt8) : Node → Bool
  | .file c => c == content
  | _ => false

def entry? (name : String) : Node → Option Node
  | .directory entries => entries.lookup name
  | _ => none

mutual
def written (old : Option Node) (names : List String) : Node → List (List String × List UInt8)
  | .file content => if old.any (holds content) then [] else [(names, content)]
  | .directory entries => writtenEntries old names entries
  | .link _ => []
def writtenEntries (old : Option Node) (names : List String) :
    List (String × Node) → List (List String × List UInt8)
  | [] => []
  | (name, node) :: rest =>
    written (old >>= entry? name) (names ++ [name]) node ++ writtenEntries old names rest
end

end Node

def Files.writtenSince (newer older : Files) : List (String × List UInt8) :=
  (Node.written (some older.root) [] newer.root).map fun w => (Files.textOfNames w.1, w.2)

end TypedContracts
