import Mathlib
import TypedContracts.Model.Signature

/-!
Canonical models: every shape is known, every type text is the signature of the shape, and no slot
below the top level has a name. `signature` looks at shapes alone, never at type texts.
-/
namespace TypedContracts

mutual
def Shape.signature : Shape → String
  | .unknown => ""
  | .primitive name => name
  | .adt constructor arguments => constructor ++ Field.signatures arguments
  | .map key value => "Map " ++ key.bracketed ++ " " ++ value.bracketed
def Field.bracketed : Field → String
  | ⟨_, _, shape⟩ => if shape.isNested then "(" ++ shape.signature ++ ")" else shape.signature
def Field.signatures : List Field → String
  | [] => ""
  | field :: rest => " " ++ field.bracketed ++ Field.signatures rest
end

mutual
def Shape.Canonical : Shape → Prop
  | .unknown => False
  | .primitive _ => True
  | .adt _ arguments => Field.AllPositional arguments
  | .map key value => key.Positional ∧ value.Positional
/-- A canonical slot without a name. -/
def Field.Positional : Field → Prop
  | ⟨name, type, shape⟩ => name = "" ∧ type = shape.signature ∧ shape.Canonical
def Field.AllPositional : List Field → Prop
  | [] => True
  | field :: rest => field.Positional ∧ Field.AllPositional rest
end

def Field.Canonical (f : Field) : Prop := f.type = f.shape.signature ∧ f.shape.Canonical

structure Contract.Canonical (c : Contract) : Prop where
  params_present : c.params ≠ some []
  params : ∀ f ∈ c.paramList, f.Canonical
  fields : ∀ f ∈ c.fields, f.Canonical
  components : ∀ m ∈ c.components, ∀ f ∈ m.params, f.Canonical
  constructors : ∀ k ∈ c.constructors, Field.AllPositional k.arguments

mutual
def Shape.words : Shape → List String
  | .unknown => []
  | .primitive name => [name]
  | .adt constructor arguments => constructor :: Field.typeWords arguments
  | .map key value => key.typeWord ++ value.typeWord
def Field.typeWord : Field → List String
  | ⟨_, _, shape⟩ => shape.words
def Field.typeWords : List Field → List String
  | [] => []
  | field :: rest => field.typeWord ++ Field.typeWords rest
end

def Field.words (f : Field) : List String := f.name :: f.shape.words

def Component.words (m : Component) : List String :=
  m.kind :: m.name :: m.params.flatMap Field.words

def Constructor.words (k : Constructor) : List String :=
  k.typeName :: k.name :: Field.typeWords k.arguments

def Contract.words (c : Contract) : List String :=
  c.name :: (c.paramList.flatMap Field.words ++ c.fields.flatMap Field.words ++
    c.components.flatMap Component.words ++ c.constructors.flatMap Constructor.words)

theorem bracketed_eq {f : Field} (canonical : f.type = f.shape.signature) :
    f.bracketed = f.argumentText := by
  obtain ⟨name, type, shape⟩ := f
  obtain rfl : type = shape.signature := canonical
  rfl

theorem positional_iff (f : Field) : f.Positional ↔ f.name = "" ∧ f.Canonical := by
  obtain ⟨name, type, shape⟩ := f
  simp [Field.Positional, Field.Canonical]

theorem application_text_from (fs : List Field) (positional : Field.AllPositional fs)
    (text : String) :
    fs.foldl (fun text f => text ++ " " ++ f.argumentText) text = text ++ Field.signatures fs := by
  induction fs generalizing text with
  | nil => simp [Field.signatures]
  | cons f fs ih =>
    have canonical := ((positional_iff f).mp positional.1).2
    rw [List.foldl_cons, ih positional.2, Field.signatures, bracketed_eq canonical.1]
    simp only [String.append_assoc]

theorem application_text_eq (constructor : String) {fs : List Field}
    (positional : Field.AllPositional fs) :
    applicationText constructor fs = (Shape.adt constructor fs).signature :=
  application_text_from fs positional constructor

theorem map_text_eq {key value : Field} (hk : key.Positional) (hv : value.Positional) :
    mapText key value = (Shape.map key value).signature := by
  have keyCanonical := ((positional_iff key).mp hk).2
  have valueCanonical := ((positional_iff value).mp hv).2
  rw [mapText, Shape.signature, bracketed_eq keyCanonical.1, bracketed_eq valueCanonical.1]

end TypedContracts
