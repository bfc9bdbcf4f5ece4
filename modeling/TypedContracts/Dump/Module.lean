import TypedContracts.Dump.TypeNode
import TypedContracts.SExp.Reader

/-!
The model of a contract from the dump of its module. Of the module only the rows `contr` and `libs`
are looked at, of the contract its name, parameters, fields and components, of the library its
type entries.
-/
namespace TypedContracts.Dump

def namedField (row : SExp) : Result Field :=
  match row with
  | .list (ident :: type :: _) => do
    let name ← identName ident
    let field ← fieldOf type
    return field.named name
  | _ => .error (.grammar .expectedPair row)

def namedFields (what : String) (node : SExp) : Result (List Field) := do
  (← itemsOf what node).mapM namedField

def componentOf (row : SExp) : Result Component :=
  match row with
  | .list (type :: name :: params :: _) => do
    let kind ← Result.ofOption (.grammar .componentTypeNotAtom type)
      (← tagged "comp_type" type).asAtom
    let name ← identName (← tagged "comp_name" name)
    let params ← namedFields "comp_params" (← tagged "comp_params" params)
    return ⟨kind, name, params⟩
  | _ => .error (.grammar .malformedComponent row)

def constructorOf (typeName : String) (clause : SExp) : Result Constructor := do
  let rows ← itemsOf "Constructor clause" clause
  let name ← requiredSection "cname" rows clause
  let arguments ← requiredSection "c_arg_types" rows clause
  let name ← identName name
  let arguments ← fieldsOf (← itemsOf "c_arg_types" arguments)
  return ⟨typeName, name, arguments⟩

def constructorsOfEntry (entry : SExp) : Result (List Constructor) :=
  match entry with
  | .list (.atom "LibVar" :: _) => .ok []
  | .list (.atom "LibTyp" :: ident :: clauses :: _) => do
    let typeName ← identName ident
    (← itemsOf "LibTyp constructors" clauses).mapM (constructorOf typeName)
  | .list (.atom "LibTyp" :: _) => .error (.grammar .malformedTypeEntry entry)
  | _ => .error (.grammar .unknownEntry entry)

def constructorsOf (libs : SExp) : Result (List Constructor) := do
  match ← itemsOf "libs" libs with
  | [] => return []
  | library :: _ =>
    let rows ← itemsOf "Library" library
    let entries ← requiredSection "lentries" rows library
    let groups ← (← itemsOf "lentries" entries).mapM constructorsOfEntry
    return groups.flatten

def nonEmpty (fields : List Field) : Option (List Field) :=
  if fields.isEmpty then none else some fields

def contractOf (module : SExp) : Result Contract := do
  let rows ← itemsOf "Module" module
  let contr ← requiredSection "contr" rows module
  let contrRows ← itemsOf "contr" contr
  let constructors ← match section? "libs" rows with
    | some libs => constructorsOf libs
    | none => pure []
  let name ← identName (← requiredSection "cname" contrRows contr)
  let params ← namedFields "cparams" (← requiredSection "cparams" contrRows contr)
  let fields ← namedFields "cfields" (← requiredSection "cfields" contrRows contr)
  let componentRows ← itemsOf "ccomps" (← requiredSection "ccomps" contrRows contr)
  let components ← componentRows.mapM componentOf
  return ⟨name, nonEmpty params, fields, components, constructors⟩

def parse (text : String) : Result SExp := (SExp.parse text).mapError .malformed

def read (text : String) : Result Contract := do contractOf (← parse text)

end TypedContracts.Dump
