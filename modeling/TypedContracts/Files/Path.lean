import TypedContracts.Text.Blank

/-!
Paths as text. A slash separates segments; empty segments and those of one dot mean nothing, except
a dot that stands first.
-/
namespace TypedContracts.Path
open TypedContracts.Text

def segments (path : String) : List String :=
  (splitAt (· == '/') path.toList).map String.ofList

def isAbsolute (path : String) : Bool := path.toList.head? == some '/'

def endsInSlash (path : String) : Bool := path.toList.getLast? == some '/'

def components (path : String) : List String :=
  match segments path with
  | [] => []
  | [""] => []
  | first :: rest => first :: rest.filter fun s => s != "" && s != "."

/-- The last segment, unless it leads to a directory that other text names. -/
def fileName? (path : String) : Option String :=
  match (components path).getLast? with
  | some "" => none
  | some "." => none
  | some ".." => none
  | other => other

/-- What follows the last dot of a name, if something precedes that dot. -/
def extensionOf? (name : String) : Option String :=
  let reversed := name.toList.reverse
  let back := reversed.takeWhile (· != '.')
  match reversed.dropWhile (· != '.') with
  | '.' :: _ :: _ => some (String.ofList back.reverse)
  | _ => none

def extension? (path : String) : Option String := fileName? path >>= extensionOf?

def join (path name : String) : String :=
  if path.isEmpty || endsInSlash path then path ++ name else path ++ "/" ++ name

/-- Segments at the end that mean nothing go; the first one stays. -/
def dropIdle : List String → List String
  | [] => []
  | first :: rest => first :: (rest.reverse.dropWhile fun s => s == "" || s == ".").reverse

def ofSegments (segments : List String) : String :=
  match segments with
  | [""] => "/"
  | _ => String.intercalate "/" segments

def parent? (path : String) : Option String :=
  match dropIdle (segments path) with
  | [] => none
  | [""] => none
  | [_] => some ""
  | several => some (ofSegments (dropIdle several.dropLast))

/-- Sorted by component, each by code point. -/
def precedes : List String → List String → Bool
  | [], _ => true
  | _ :: _, [] => false
  | a :: as, b :: bs => if a < b then true else if b < a then false else precedes as bs

def sorted (paths : List String) : List String :=
  paths.mergeSort fun a b => precedes (components a) (components b)

end TypedContracts.Path
