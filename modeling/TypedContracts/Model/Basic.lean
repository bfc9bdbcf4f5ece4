/-!
The structural model of one source: its parameters, fields, components and user-defined types.
A field is a value slot; its shape is the structure behind its type text, unknown when a stored
model lacks it.
-/
namespace TypedContracts

mutual
inductive Shape where
  | unknown
  | primitive (name : String)
  | adt (constructor : String) (arguments : List Field)
  | map (key value : Field)
structure Field where
  name : String
  type : String
  shape : Shape
end

deriving instance Inhabited, Repr for Shape, Field

mutual
def Shape.decEq : (a b : Shape) → Decidable (a = b)
  | .unknown, b => match b with
    | .unknown => isTrue rfl
    | .primitive _ | .adt _ _ | .map _ _ => isFalse (by simp)
  | .primitive s, b => match b with
    | .primitive t => if h : s = t then isTrue (by rw [h]) else isFalse (by simp [h])
    | .unknown | .adt _ _ | .map _ _ => isFalse (by simp)
  | .adt c xs, b => match b with
    | .adt d ys =>
      if h : c = d then
        match Field.decEqList xs ys with
        | isTrue h' => isTrue (by rw [h, h'])
        | isFalse h' => isFalse (by simp [h'])
      else isFalse (by simp [h])
    | .unknown | .primitive _ | .map _ _ => isFalse (by simp)
  | .map k v, b => match b with
    | .map l w =>
      match Field.decEq k l, Field.decEq v w with
      | isTrue h, isTrue h' => isTrue (by rw [h, h'])
      | isFalse h, _ => isFalse (by simp [h])
      | _, isFalse h => isFalse (by simp [h])
    | .unknown | .primitive _ | .adt _ _ => isFalse (by simp)
def Field.decEq : (a b : Field) → Decidable (a = b)
  | ⟨n, t, s⟩, ⟨m, u, r⟩ =>
    if h : n = m ∧ t = u then
      match Shape.decEq s r with
      | isTrue h' => isTrue (by rw [h.1, h.2, h'])
      | isFalse h' => isFalse (by simp [h'])
    else isFalse (by simp only [Field.mk.injEq, ← and_assoc, h, false_and, not_false_eq_true])
def Field.decEqList : (a b : List Field) → Decidable (a = b)
  | [], [] => isTrue rfl
  | x :: xs, y :: ys =>
    match Field.decEq x y, Field.decEqList xs ys with
    | isTrue h, isTrue h' => isTrue (by rw [h, h'])
    | isFalse h, _ => isFalse (by simp [h])
    | _, isFalse h => isFalse (by simp [h])
  | [], _ :: _ => isFalse (by simp)
  | _ :: _, [] => isFalse (by simp)
end

instance : DecidableEq Shape := Shape.decEq
instance : DecidableEq Field := Field.decEq

namespace Field

def ofPrimitive (type : String) : Field := ⟨"", type, .primitive type⟩

def named (f : Field) (name : String) : Field := { f with name }

def label (f : Field) : String :=
  if f.name.isEmpty then f.type else f.name ++ " (" ++ f.type ++ ")"

def types (fs : List Field) : List String := fs.map (·.type)

end Field

structure Component where
  kind : String
  name : String
  params : List Field
deriving DecidableEq, Repr, Inhabited

def Component.isProcedure (c : Component) : Bool := c.kind == "CompProc"

structure Constructor where
  typeName : String
  name : String
  arguments : List Field
deriving DecidableEq, Repr, Inhabited

/-- A contract, or a library with nothing but a name. `params` is absent when the source declares
no deployment parameters. -/
structure Contract where
  name : String
  params : Option (List Field)
  fields : List Field
  components : List Component
  constructors : List Constructor
deriving DecidableEq, Repr, Inhabited

namespace Contract

def component? (c : Contract) (name : String) : Option Component :=
  c.components.find? (·.name == name)

def field? (c : Contract) (name : String) : Option Field := c.fields.find? (·.name == name)

def paramList (c : Contract) : List Field := c.params.getD []

def param? (c : Contract) (name : String) : Option Field := c.paramList.find? (·.name == name)

end Contract
end TypedContracts
