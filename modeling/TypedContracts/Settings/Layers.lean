import TypedContracts.Files.Tree
import TypedContracts.Json.Reader
import TypedContracts.Settings.Basic
import TypedContracts.Settings.Environment
import TypedContracts.Settings.Toml

/-!
Settings in layers: the defaults, over them a file, over that the environment. The file is the given
one or else the one that the environment names.
-/
namespace TypedContracts
open Json

namespace Setting

/-- A record is a table of declared members, or an array of the members in their declared order, of
which more may follow. -/
def slots? (keys : List String) : Setting → Option (List (Slot Setting))
  | .table ms => if onlyKeys keys ms then memberSlots? keys ms else none
  | .items values => itemSlots? keys.length (values.take keys.length)
  | _ => none

def form : SettingsForm Setting := ⟨slots?, text?, word32?, word64?, bool?, isNull⟩

def layer (root : Setting) : List (KeyPath × Setting) :=
  root.members.map fun m => (KeyPath.ofChars m.1.toList, m.2)

end Setting

namespace SettingsFile

inductive Format where
  | json
  | toml
deriving DecidableEq, Repr

def Format.extension : Format → String
  | .json => "json"
  | .toml => "toml"

def formats : List Format := [.toml, .json]

def format? (path : String) : Option Format :=
  formats.find? fun f => Path.extension? path == some f.extension

def withExtension? (path : String) (f : Format) : Option String :=
  (Path.fileName? path).map fun _ =>
    Path.ofSegments (Path.dropIdle (Path.segments path)) ++ "." ++ f.extension

def isFile (files : Files) (path : String) : Bool := (files.content path).toBool

/-- The file at a path, or the first one that an extension leads to when there is none. -/
def find? (files : Files) (path : String) : Option (String × Format) :=
  if isFile files path then (format? path).map fun f => (path, f)
  else formats.findSome? fun f => (withExtension? path f).bind fun p =>
    if isFile files p then some (p, f) else none

def parse? (text : String) : Format → Option Setting
  | .json => (Json.parse? text).map fun j => Setting.ofJson j.canonical
  | .toml => Toml.parse? text

def read? (files : Files) (path : String) : Option Setting := do
  let (path, f) ← find? files path
  parse? (← (files.readText path).toOption) f

end SettingsFile

namespace Settings

/-- What reads a file as a layer and what makes a tree of layers, the later ones above. -/
structure Loader where
  read? : Files → String → Option (List (KeyPath × Setting))
  merge : List (List (KeyPath × Setting)) → Setting

def loader : Loader where
  read? files path := (SettingsFile.read? files path).map Setting.layer
  merge layers := layers.foldl (fun tree layer => Setting.putAll layer tree) .emptyTable

def Loader.tree? (l : Loader) (files : Files) (env : Environment) : Option String → Option Setting
  | none => some (l.merge [env.settings])
  | some path => (l.read? files path).map fun layer => l.merge [layer, env.settings]

def ofTree (tree : Option Setting) : Result Settings := do
  let s ← Result.ofOption (.settings .unreadable) (tree >>= read? Setting.form)
  s.validate
  return s

/-- The settings, and the environment afterwards: the variable that names the file is gone. -/
def Loader.build (l : Loader) (files : Files) (env : Environment) (file : Option String) :
    Result Settings × Environment :=
  let rest := env.without Environment.fileVariable
  (ofTree (l.tree? files rest (file <|> env.lookup Environment.fileVariable)), rest)

def build (files : Files) (env : Environment) (file : Option String) :
    Result Settings × Environment :=
  loader.build files env file

end Settings
end TypedContracts
