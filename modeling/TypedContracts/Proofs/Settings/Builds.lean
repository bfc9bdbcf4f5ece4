import Mathlib
import TypedContracts.Proofs.Files.Write
import TypedContracts.Proofs.Settings.Strict

/-!
Builds of settings one after another in one process. A build takes the variable that names the file
out of the environment and does not put it back, so that file reaches the first build alone: every
later one has the settings of the other variables over the defaults.
-/
namespace TypedContracts
open Json

namespace Environment

theorem lookup_rest (env : Environment) (name key : String) :
    (env.without name).lookup key = if key = name then none else env.lookup key :=
  lookup_without env name key

theorem without_twice (env : Environment) (name : String) :
    (env.without name).without name = env.without name := by
  simp [without]

end Environment

namespace Settings
open Environment

theorem ofTree_read {tree : Setting} {s : Settings} (read : read? Setting.form tree = some s)
    (valid : s.validate = .ok ()) : ofTree (some tree) = .ok s := by
  simp [ofTree, read, valid, Result.ofOption, bind, Except.bind, pure, Except.pure]

theorem file_alone {l : Loader} {files : Files} {env : Environment} {path : String}
    {ms : List (String × Json)} {s : Settings} (merges : l.merge = loader.merge)
    (bare : env.settings = [])
    (holds : l.read? files path = some (Setting.ofJson (Json.object ms).canonical).layer)
    (signed : (Json.object ms).Signed) (strict : ofJson? (.object ms) = some s)
    (valid : s.validate = .ok ()) : ofTree (l.tree? files env (some path)) = .ok s := by
  rw [Loader.tree?, holds, Option.map_some, bare, merges]
  exact ofTree_read (file_read signed strict) valid

theorem default_alone {l : Loader} {files : Files} {env : Environment}
    (merges : l.merge = loader.merge) (bare : env.settings = []) :
    ofTree (l.tree? files env none) = .ok default := by
  rw [Loader.tree?, bare, merges]
  rfl

namespace Loader
variable {l : Loader} {files : Files} {env : Environment}

/-- The settings of the builds of a process, one for each call, and the environment they leave. -/
def builds (l : Loader) (files : Files) (env : Environment) :
    List (Option String) → List (Result Settings) × Environment
  | [] => ([], env)
  | file :: calls =>
    let first := l.build files env file
    let later := builds l files first.2 calls
    (first.1 :: later.1, later.2)

theorem builds_without (gone : env.without fileVariable = env) (calls : List (Option String)) :
    l.builds files env calls = (calls.map fun file => (l.build files env file).1, env) := by
  induction calls with
  | nil => rfl
  | cons file calls ih =>
    have left : (l.build files env file).2 = env := gone
    rw [builds, left, ih]
    rfl

theorem builds_cons (l : Loader) (files : Files) (env : Environment) (file : Option String)
    (calls : List (Option String)) :
    l.builds files env (file :: calls) =
      ((l.build files env file).1 ::
        calls.map fun later => (l.build files (l.build files env file).2 later).1,
        (l.build files env file).2) := by
  have gone : (l.build files env file).2.without fileVariable = (l.build files env file).2 :=
    without_twice env fileVariable
  rw [builds, builds_without gone]

theorem build_tree (l : Loader) (files : Files) (env : Environment) (file : Option String) :
    (l.build files env file).1 =
      ofTree (l.tree? files (env.without fileVariable) (file <|> env.lookup fileVariable)) := rfl

theorem build_named (l : Loader) (files : Files) (env : Environment) :
    (l.build files env none).1 = (l.build files env (env.lookup fileVariable)).1 := by
  rw [build_tree, build_tree]
  cases env.lookup fileVariable <;> rfl

theorem build_left (l : Loader) (files : Files) (env : Environment) (file : Option String)
    (name : String) : (l.build files env file).2.lookup name =
      if name = fileVariable then none else env.lookup name :=
  lookup_rest env fileVariable name

theorem build_again (l : Loader) (files : Files) (env : Environment) (file : Option String) :
    (l.build files (l.build files env file).2 file).1 =
      ofTree (l.tree? files (env.without fileVariable) file) := by
  have forgotten : (env.without fileVariable).lookup fileVariable = none := by
    rw [lookup_rest, if_pos rfl]
  simp [build, without_twice, forgotten]

end Loader

/-- However files are read and layers merged, two builds in a row agree and leave the variable alone
just if there is no such variable. A given file is read by both; a file that only the variable names
is read by the first one alone. -/
theorem builds_agree_iff (l : Loader) (files : Files) (env : Environment) (file : Option String)
    (calls : List (Option String)) :
    let named := env.lookup fileVariable
    let first := l.build files env file
    let second := l.build files first.2 file
    (second.1 = first.1 ∧ first.2.lookup fileVariable = named ↔ named = none) ∧
      (file.isSome → second.1 = first.1) ∧
      (file = none → first.1 = (l.build files env named).1 ∧
        second.1 = ofTree (some (l.merge [first.2.settings])) ∧
        ∀ path ms s, l.merge = loader.merge → named = some path → first.2.settings = [] →
          l.read? files path = some (Setting.ofJson (Json.object ms).canonical).layer →
          (Json.object ms).Signed → ofJson? (.object ms) = some s → s.validate = .ok () →
            first.1 = .ok s ∧ second.1 = .ok default) ∧
      (∀ name, name ≠ fileVariable → first.2.lookup name = env.lookup name) ∧
      l.builds files env (file :: calls) =
        (first.1 :: calls.map fun later => (l.build files first.2 later).1, first.2) := by
  intro named first second
  have again : second.1 = ofTree (l.tree? files (env.without fileVariable) file) :=
    Loader.build_again l files env file
  have gone : first.2.lookup fileVariable = none := by
    rw [Loader.build_left, if_pos rfl]
  refine ⟨⟨?_, ?_⟩, ?_, ?_, ?_, Loader.builds_cons l files env file calls⟩
  · intro unchanged
    rw [← unchanged.2, gone]
  · intro unset
    have unnamed : (file <|> env.lookup fileVariable) = file := by
      rw [show env.lookup fileVariable = none from unset]
      cases file <;> rfl
    refine ⟨?_, gone.trans unset.symm⟩
    rw [again, Loader.build_tree, unnamed]
  · intro given
    obtain ⟨path, rfl⟩ := Option.isSome_iff_exists.mp given
    rw [again]
    rfl
  · rintro rfl
    refine ⟨Loader.build_named l files env, again, ?_⟩
    intro path ms s merges found bare holds signed strict valid
    constructor
    · rw [Loader.build_tree, show env.lookup fileVariable = some path from found]
      exact file_alone merges bare holds signed strict valid
    · rw [again]
      exact default_alone merges bare
  · intro name other
    rw [Loader.build_left, if_neg other]

def shelf (text : String) : Files :=
  ⟨.directory [("scilla.json", .file (Text.Utf8.bytesOf text))], []⟩

def naming : Environment := [(fileVariable, "scilla.json")]

theorem shelf_read (text : String) : SettingsFile.read? (shelf text) "scilla.json" =
    SettingsFile.parse? text .json := by
  have node : (shelf text).node "scilla.json" =
      .ok (["scilla.json"], .file (Text.Utf8.bytesOf text)) :=
    Files.node_file rfl rfl (by decide) (by decide) (by decide) rfl
  have isFile : SettingsFile.isFile (shelf text) "scilla.json" = true := by
    rw [SettingsFile.isFile, Files.content_file node]
    rfl
  have found : SettingsFile.find? (shelf text) "scilla.json" = some ("scilla.json", .json) := by
    rw [SettingsFile.find?, if_pos isFile]
    decide
  simp [SettingsFile.read?, found, Files.readText_bytes (Files.readBytes_file node),
    Except.toOption]

def elsewhere : Settings := { Settings.default with network := ⟨"http://localhost:5555", 333⟩ }

def chainText : String := "\x7b\"network\": \x7b\"chain_id\": 333\x7d\x7d"

def chainMembers : List (String × Json) := [("network", .object [("chain_id", .integer 333)])]

theorem chain_read : loader.read? (shelf chainText) "scilla.json" =
    some (Setting.ofJson (Json.object chainMembers).canonical).layer := by
  have parsed : Json.parse? chainText = some (.object chainMembers) := by decide +kernel
  simp only [loader, shelf_read, SettingsFile.parse?, parsed]
  rfl

theorem chain_strict : ofJson? (.object chainMembers) = some elsewhere := by decide

theorem chain_signed : (Json.object chainMembers).Signed := ⟨⟨rfl, trivial⟩, trivial⟩

theorem chain_read_once :
    let files := shelf chainText
    (build files naming none).1 = .ok elsewhere ∧
      (build files (build files naming none).2 none).1 = .ok default :=
  ((builds_agree_iff loader (shelf chainText) naming none []).2.2.1 rfl).2.2 "scilla.json"
    chainMembers elsewhere rfl rfl rfl chain_read chain_signed chain_strict rfl

/-- The second of two builds misses the file that the variable named before the first. -/
theorem second_build_without_file :
    let files := shelf chainText
    let first := build files naming none
    let second := build files first.2 none
    naming.lookup fileVariable = some "scilla.json" ∧ first.2.lookup fileVariable = none ∧
      first.1 = .ok elsewhere ∧ second.1 = .ok default ∧ second.1 ≠ first.1 := by
  intro files first second
  have gone : first.2.lookup fileVariable = none := by
    rw [show first.2 = (loader.build files naming none).2 from rfl, Loader.build_left, if_pos rfl]
  have before : first.1 = .ok elsewhere :=
    file_alone rfl rfl chain_read chain_signed chain_strict rfl
  have after : second.1 = .ok default :=
    (Loader.build_again loader files naming none).trans (default_alone rfl rfl)
  refine ⟨rfl, gone, before, after, ?_⟩
  rw [before, after]
  decide

end Settings
end TypedContracts
