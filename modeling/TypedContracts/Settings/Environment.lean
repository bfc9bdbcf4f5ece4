import TypedContracts.Settings.Setting
import TypedContracts.Text.Blank

/-!
Settings in environment variables. A name that starts with the mark of this program is, in small
letters, a path of keys and indices; two underscores count as a dot.
-/
namespace TypedContracts

abbrev Environment := List (String × String)

namespace Environment

def nameMark : String := "scilla__"

/-- Names the settings file and is itself no setting. -/
def fileVariable : String := "SCILLA__CONFIG"

def without (name : String) (env : Environment) : Environment := env.filter (·.1 != name)

/-- Two underscores in a row join like a dot, from the left. -/
def joinedByDots : List Char → List Char
  | '_' :: '_' :: rest => '.' :: joinedByDots rest
  | c :: rest => c :: joinedByDots rest
  | [] => []

def path? (name : String) : Option KeyPath :=
  let low := Text.lowered name
  if Text.startsWith nameMark low then
    some (KeyPath.ofChars (joinedByDots (low.toList.drop nameMark.length)))
  else none

def integer? (text : String) : Option Int :=
  let (negative, digits) := Digits.signed text.toList
  (Digits.decimal? digits).bind fun n => Word.signed? Word.count64 (Digits.negated negative n)

/-- A truth value or a number if the text reads as one, else the text. -/
def value (text : String) : Setting :=
  if Text.lowered text = "true" then .bool true
  else if Text.lowered text = "false" then .bool false
  else match integer? text with
    | some n => .integer n
    | none => match Extended.parse? text with
      | some x => .real x
      | none => .text text

def ofAssignment (cs : List Char) : String × String :=
  (String.ofList (cs.takeWhile (· != '=')), String.ofList ((cs.dropWhile (· != '=')).drop 1))

def ofChars (cs : List Char) : Environment :=
  ((Text.splitAt (· == Char.ofNat 0) cs).filter (!·.isEmpty)).map ofAssignment

def settings (env : Environment) : List (KeyPath × Setting) :=
  env.filterMap fun v => (path? v.1).map fun path => (path, value v.2)

end Environment
end TypedContracts
