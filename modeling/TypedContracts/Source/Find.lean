import TypedContracts.Files.Tree
import TypedContracts.Text.Blank

/-!
The sources below a root: every name that ends in a source extension, hidden or not, file or
directory, unless the path leads through an excluded directory. Paths keep the spelling of the root
and come sorted by component. Every directory below the root must be listed for that, excluded or
not; the first one that cannot be gives the error.
-/
namespace TypedContracts.Source

def contractExtension : String := "scilla"

def libraryExtension : String := "scillib"

def extensions : List String := [contractExtension, libraryExtension]

def excludedDirectory : String := "node_modules"

/-- `name` in the directory `path`; the current directory is not written. -/
def entryPath (path name : String) : String :=
  if path = "." then name else Path.join path name

def descend (files : Files) (path segment : String) : Option String :=
  let next := entryPath path segment
  if segment = "." ∨ segment = ".." then if files.isDirectory path then some next else none
  else if files.exists? next then some next
  else none

/-- The root as its entries will spell it. -/
def spelling? (files : Files) (root : String) : Option String :=
  match Path.segments (root ++ "/") with
  | "" :: rest => rest.dropLast.foldlM (descend files) "/"
  | all => all.dropLast.foldlM (descend files) "."

def below (files : Files) : Nat → String → List String
  | 0, _ => []
  | fuel + 1, path =>
    (files.children path).flatMap fun name =>
      entryPath path name :: below files fuel (entryPath path name)

/-- Directories below a directory. A link to one is listed only as far as its path leads there. -/
def directoriesBelow (files : Files) : Nat → String → List String
  | 0, _ => []
  | fuel + 1, path =>
    (files.children path).flatMap fun name =>
      (if name ∈ files.directories path then [entryPath path name] else []) ++
        directoriesBelow files fuel (entryPath path name)

/-- No path is longer: each link on it may lead through the whole tree once. -/
def depthBound (files : Files) : Nat := (Files.linkLimit + 1) * (files.root.height + 1)

def hasExtension (extension path : String) : Bool :=
  match Path.fileName? path with
  | some name => Text.endsWith ("." ++ extension) name
  | none => false

def isExcluded (path : String) : Bool := (Path.components path).contains excludedDirectory

def isSource (path : String) : Bool :=
  extensions.any (hasExtension · path) && !isExcluded path

def find (files : Files) (root : String) : List String :=
  match spelling? files root with
  | none => []
  | some base => Path.sorted ((below files (depthBound files) base).filter isSource)

def directories (files : Files) (root : String) : List String :=
  match spelling? files root with
  | none => []
  | some base => Path.sorted (directoriesBelow files (depthBound files) base)

def listAll (files : Files) : List String → Result Unit
  | [] => .ok ()
  | path :: rest => do
    let _ ← files.list path
    listAll files rest

def search (files : Files) (root : String) : Result (List String) := do
  listAll files (directories files root)
  return find files root

end TypedContracts.Source
