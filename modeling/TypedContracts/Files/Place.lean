import TypedContracts.Error
import TypedContracts.Files.Node
import TypedContracts.Files.Path

/-!
Where paths lead in a tree with a current directory. Resolving a path follows links, at most forty
of them, and ends at a node or at a vacant name in a directory. The entry that a path names itself is
found without following a link at its end.
-/
namespace TypedContracts

structure Files where
  root : Node
  current : List String

structure Place where
  names : List String
  node : Option Node

namespace Files

/-- The steps of a path; a slash at the end is a step of no text. -/
def steps (path : String) : List String :=
  let all := Path.segments path
  let named := all.filter (· != "")
  if all.getLast? = some "" then named ++ [""] else named

def linkLimit : Nat := 40

def nameLimit : Nat := 255

/-- A path has fewer bytes than this. -/
def pathLimit : Nat := 4096

/-- Follows the steps from the directory `here`. A last name with a slash behind it asks for a
directory; it cannot be given to a file that is to be made, whatever is there. -/
def follow (root : Node) (making : Bool) (links : Nat) (here : List String) :
    List String → Except FileFault Place
  | [] => .ok ⟨here, root.lookup? here⟩
  | "" :: rest => follow root making links here rest
  | "." :: rest => follow root making links here rest
  | ".." :: rest => follow root making links here.dropLast rest
  | name :: rest =>
    if making && rest == [""] then .error .isDirectory
    else if nameLimit < name.utf8ByteSize then .error .nameTooLong
    else match root.lookup? (here ++ [name]) with
      | none => if rest.isEmpty then .ok ⟨here ++ [name], none⟩ else .error .notFound
      | some (.directory _) => follow root making links (here ++ [name]) rest
      | some (.file content) =>
        if rest.isEmpty then .ok ⟨here ++ [name], some (.file content)⟩ else .error .notDirectory
      | some (.link target) =>
        match links with
        | 0 => .error .tooManyLinks
        | left + 1 =>
          follow root making left (if Path.isAbsolute target then [] else here)
            (steps target ++ rest)
termination_by rest => (links, rest.length)

def checkPath (path : String) : Except FileFault Unit :=
  if Text.hasNull path then .error .nullCharacter
  else if pathLimit ≤ path.utf8ByteSize then .error .nameTooLong
  else if path.isEmpty then .error .notFound
  else .ok ()

def origin (files : Files) (path : String) : List String :=
  if Path.isAbsolute path then [] else files.current

def walk (files : Files) (making : Bool) (path : String) : Except FileFault Place := do
  checkPath path
  follow files.root making linkLimit (files.origin path) (steps path)

def resolve (files : Files) (path : String) : Except FileFault Place := files.walk false path

def resolveNew (files : Files) (path : String) : Except FileFault Place := files.walk true path

/-- The entry that a path names itself, unless its last step leads to a directory that other text
names. -/
def entry (files : Files) (path : String) : Except FileFault (Option Place) := do
  checkPath path
  let names := (steps path).filter (· != "")
  let above ← follow files.root false linkLimit (files.origin path) (names.dropLast ++ [""])
  match names.getLast? with
  | none => return none
  | some "." => return none
  | some ".." => return none
  | some name =>
    if nameLimit < name.utf8ByteSize then .error .nameTooLong
    else return some ⟨above.names ++ [name], files.root.lookup? (above.names ++ [name])⟩

end Files
end TypedContracts
