import TypedContracts.Files.Place

/-!
Reading and changing a tree of files by path. An operation that fails says why, and one that nobody
answers for leaves the tree as it was.
-/
namespace TypedContracts.Files

def node (files : Files) (path : String) : Except FileFault (List String × Node) :=
  match files.resolve path with
  | .ok ⟨names, some node⟩ => .ok (names, node)
  | .ok ⟨_, none⟩ => .error .notFound
  | .error fault => .error fault

def exists? (files : Files) (path : String) : Bool := (files.node path).toBool

def isDirectory (files : Files) (path : String) : Bool :=
  match files.node path with
  | .ok (_, node) => node.isDirectory
  | .error _ => false

def textOfNames (names : List String) : String := "/" ++ String.intercalate "/" names

def canonical (files : Files) (path : String) : Result String :=
  match files.node path with
  | .ok (names, _) => .ok (textOfNames names)
  | .error fault => .error (.file path fault)

def content (files : Files) (path : String) : Except FileFault (List UInt8) :=
  match files.node path with
  | .ok (_, .file content) => .ok content
  | .ok (_, .directory _) => .error .isDirectory
  | .ok (_, .link _) => .error .tooManyLinks
  | .error fault => .error fault

def readBytes (files : Files) (path : String) : Result (List UInt8) :=
  (files.content path).mapError (.file path)

def readText (files : Files) (path : String) : Result String := do
  match Text.Utf8.decode (← files.readBytes path) with
  | some cs => return String.ofList cs
  | none => .error (.file path .notUtf8)

def require (files : Files) (path : String) : Result Unit :=
  if files.exists? path then .ok () else .error (.file path .absent)

def put (files : Files) (names : List String) (value : Option Node) : Files :=
  { files with root := files.root.put value names }

def write (files : Files) (path : String) (content : List UInt8) : Result Files :=
  match files.resolveNew path with
  | .ok ⟨_, some (.directory _)⟩ => .error (.file path .isDirectory)
  | .ok ⟨names, _⟩ => .ok (files.put names (some (.file content)))
  | .error fault => .error (.file path fault)

def writeText (files : Files) (path text : String) : Result Files :=
  files.write path (Text.Utf8.bytesOf text)

/-- Makes one directory; what is there already, and be it a link that leads nowhere, is an error. -/
def makeDirectory (files : Files) (path : String) : Except FileFault Files :=
  match files.entry path with
  | .ok (some ⟨names, none⟩) => .ok (files.put names (some (.directory [])))
  | .ok _ => .error .exists
  | .error fault => .error fault

/-- Makes a directory and, as far as they are missing, those above it. The files come back also when
it fails, with what was made until then. -/
def makeDirectories (files : Files) (path : String) : Nat → Files × Except FileFault Unit
  | 0 => (files, .error .notFound)
  | fuel + 1 =>
    if path.isEmpty then (files, .ok ())
    else match files.makeDirectory path with
      | .ok made => (made, .ok ())
      | .error fault =>
        if fault = .notFound then
          match Path.parent? path with
          | none => (files, .error fault)
          | some parent =>
            match files.makeDirectories parent fuel with
            | (above, .error fault) => (above, .error fault)
            | (above, .ok ()) =>
              match above.makeDirectory path with
              | .ok made => (made, .ok ())
              | .error fault =>
                if above.isDirectory path then (above, .ok ()) else (above, .error fault)
        else if files.isDirectory path then (files, .ok ())
        else (files, .error fault)

def ensureDirectory (files : Files) (path : String) : Files × Result Unit :=
  let (made, done) := files.makeDirectories path (path.length + 1)
  (made, done.mapError (.file path))

def children (files : Files) (path : String) : List String :=
  match files.node path with
  | .ok (_, .directory entries) => entries.map (·.1)
  | _ => []

def directories (files : Files) (path : String) : List String :=
  match files.node path with
  | .ok (_, .directory entries) => (entries.filter (·.2.isDirectory)).map (·.1)
  | _ => []

/-- The names in a directory. The path to it may be too long, though that to its own directory is
not. -/
def list (files : Files) (path : String) : Result (List String) :=
  match files.node path with
  | .ok (_, .directory _) => .ok (files.children path)
  | .ok _ => .error (.file path .notDirectory)
  | .error fault => .error (.file path fault)

def delete (files : Files) (path : String) : Files :=
  match files.entry path with
  | .ok (some ⟨names, some node⟩) =>
    if Path.endsInSlash path && !node.isDirectory then files else files.put names none
  | _ => files

def makeLink (files : Files) (path target : String) : Files :=
  match checkPath target, files.entry path with
  | .ok (), .ok (some ⟨names, none⟩) =>
    if Path.endsInSlash path then files else files.put names (some (.link target))
  | _, _ => files

/-- A directory replaces nothing but an empty directory, and other nodes nothing but their like. -/
def mayReplace (node : Node) : Option Node → Bool
  | none => true
  | some (.directory entries) => node.isDirectory && entries.isEmpty
  | some _ => !node.isDirectory

/-- Moves what a path names, links not followed, unless it would stand inside itself. -/
def move (files : Files) (path target : String) : Files :=
  match files.entry path, files.entry target with
  | .ok (some ⟨source, some node⟩), .ok (some ⟨names, replaced⟩) =>
    if (Path.endsInSlash path || Path.endsInSlash target) && !node.isDirectory then files
    else if source.isPrefixOf names || !mayReplace node replaced then files
    else (files.put source none).put names (some node)
  | _, _ => files

end TypedContracts.Files
