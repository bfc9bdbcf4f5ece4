import TypedContracts.Model.Basic

/-!
Type texts. An application lists its arguments behind the constructor; an argument that is itself
an application or a map stands in brackets.
-/
namespace TypedContracts

def Shape.isNested : Shape → Bool
  | .adt _ (_ :: _) => true
  | .map _ _ => true
  | .adt _ [] => false
  | .primitive _ => false
  | .unknown => false

def Field.argumentText (f : Field) : String :=
  if f.shape.isNested then "(" ++ f.type ++ ")" else f.type

def applicationText (constructor : String) (arguments : List Field) : String :=
  arguments.foldl (fun text f => text ++ " " ++ f.argumentText) constructor

def mapText (key value : Field) : String :=
  "Map " ++ key.argumentText ++ " " ++ value.argumentText

namespace Field

def ofApplication (constructor : String) (arguments : List Field) : Field :=
  ⟨"", applicationText constructor arguments, .adt constructor arguments⟩

def ofMap (key value : Field) : Field := ⟨"", mapText key value, .map key value⟩

end Field
end TypedContracts
