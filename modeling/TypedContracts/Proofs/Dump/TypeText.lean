import TypedContracts.Proofs.Dump.Canonical

/-!
Type texts are unambiguous. A text is a name and a row of parts, each of them in brackets if it has
parts of its own; names hold no blank and no bracket, so the text can be taken apart in one way only.
What it does not tell apart are a primitive type and a constructor of that name without arguments.
-/
namespace TypedContracts

def typeMarks : List Char := [' ', '(', ')']

def TypeName (name : String) : Prop := name ≠ "" ∧ ∀ c ∈ name.toList, c ∉ typeMarks

mutual
/-- Every name is one, and no constructor looks like the type of maps. -/
def Shape.WellNamed : Shape → Prop
  | .unknown => False
  | .primitive name => TypeName name
  | .adt constructor arguments =>
    TypeName constructor ∧ constructor ≠ "Map" ∧ Field.AllWellNamed arguments
  | .map key value => key.WellNamed ∧ value.WellNamed
def Field.WellNamed : Field → Prop
  | ⟨_, _, shape⟩ => shape.WellNamed
def Field.AllWellNamed : List Field → Prop
  | [] => True
  | field :: rest => field.WellNamed ∧ Field.AllWellNamed rest
end

mutual
/-- The shape with a primitive in place of each constructor without arguments, at every depth. -/
def Shape.merged : Shape → Shape
  | .unknown => .unknown
  | .primitive name => .primitive name
  | .adt constructor [] => .primitive constructor
  | .adt constructor (field :: rest) => .adt constructor (field.merged :: Field.allMerged rest)
  | .map key value => .map key.merged value.merged
def Field.merged : Field → Field
  | ⟨name, type, shape⟩ => ⟨name, type, shape.merged⟩
def Field.allMerged : List Field → List Field
  | [] => []
  | field :: rest => field.merged :: Field.allMerged rest
end

theorem merged_nested (s : Shape) : s.merged.isNested = s.isNested := by
  rcases s with _ | _ | ⟨_, _ | _⟩ | _ <;> rfl

mutual
theorem merged_signature : (s : Shape) → s.merged.signature = s.signature
  | .unknown => rfl
  | .primitive _ => rfl
  | .adt c [] => by simp [Shape.merged, Shape.signature, Field.signatures]
  | .adt c (f :: fs) => by
    simp only [Shape.merged, Shape.signature, Field.signatures, merged_bracketed f,
      merged_signatures fs]
  | .map k v => by
    simp only [Shape.merged, Shape.signature, merged_bracketed k, merged_bracketed v]
theorem merged_bracketed : (f : Field) → f.merged.bracketed = f.bracketed
  | ⟨name, type, shape⟩ => by
    simp only [Field.merged, Field.bracketed, merged_nested, merged_signature shape]
theorem merged_signatures : (fs : List Field) →
    Field.signatures (Field.allMerged fs) = Field.signatures fs
  | [] => rfl
  | f :: fs => by
    simp only [Field.allMerged, Field.signatures, merged_bracketed f, merged_signatures fs]
end

theorem merged_of_shape {f g : Field} (hf : f.Positional) (hg : g.Positional)
    (same : f.shape.merged = g.shape.merged) : f.merged = g.merged := by
  obtain ⟨name, type, shape⟩ := f
  obtain ⟨other, text, form⟩ := g
  obtain ⟨rfl, rfl, -⟩ := hf
  obtain ⟨rfl, rfl, -⟩ := hg
  have texts : shape.signature = form.signature := by
    rw [← merged_signature shape, ← merged_signature form]
    exact congrArg Shape.signature same
  simp only [Field.merged, texts]
  rw [same]

def Shape.head : Shape → String
  | .unknown => ""
  | .primitive name => name
  | .adt constructor _ => constructor
  | .map _ _ => "Map"

def Shape.parts : Shape → List Field
  | .unknown => []
  | .primitive _ => []
  | .adt _ arguments => arguments
  | .map key value => [key, value]

def Shape.ofParts (head : String) : List Field → Shape
  | [] => .primitive head
  | [key, value] => if head = "Map" then .map key value else .adt head [key, value]
  | parts => .adt head parts

theorem merged_ofParts {s : Shape} (named : s.WellNamed) :
    s.merged = .ofParts s.head (Field.allMerged s.parts) := by
  cases s with
  | unknown => exact named.elim
  | primitive name => rfl
  | adt c arguments =>
    obtain ⟨-, noMap, -⟩ := named
    rcases arguments with _ | ⟨f, _ | ⟨g, _ | ⟨h, rest⟩⟩⟩ <;>
      simp [Shape.merged, Shape.ofParts, Shape.head, Shape.parts, Field.allMerged, noMap]
  | map k v => simp [Shape.merged, Shape.ofParts, Shape.head, Shape.parts, Field.allMerged]

theorem head_name {s : Shape} (named : s.WellNamed) : TypeName s.head := by
  cases s with
  | unknown => exact named.elim
  | primitive name => exact named
  | adt c arguments => exact named.1
  | map k v =>
    rw [Shape.head]
    exact ⟨by decide, by simp [typeMarks]⟩

def partsText (fs : List Field) : List Char := fs.flatMap fun f => ' ' :: f.bracketed.toList

theorem signatures_chars (fs : List Field) : (Field.signatures fs).toList = partsText fs := by
  induction fs with
  | nil => rfl
  | cons f fs ih => simp [Field.signatures, partsText, ih]

theorem signature_chars (s : Shape) : s.signature.toList = s.head.toList ++ partsText s.parts := by
  cases s with
  | unknown => rfl
  | primitive name => simp [Shape.signature, Shape.head, Shape.parts, partsText]
  | adt c arguments =>
    simp [Shape.signature, Shape.head, Shape.parts, signatures_chars]
  | map k v => simp [Shape.signature, Shape.head, Shape.parts, partsText]

theorem bracketed_chars (f : Field) : f.bracketed.toList =
    if f.shape.parts = [] then f.shape.head.toList
    else '(' :: (f.shape.signature.toList ++ [')']) := by
  obtain ⟨name, type, shape⟩ := f
  rcases shape with _ | _ | ⟨_, _ | _⟩ | _ <;>
    simp [Field.bracketed, Shape.isNested, Shape.parts, Shape.head, Shape.signature,
      Field.signatures]

def Marked (rest : List Char) : Prop := ∀ c ∈ rest.head?, c ∈ typeMarks

def Parted (rest : List Char) : Prop := ∀ c ∈ rest.head?, c = ' ' ∨ c = ')'

def Closed (rest : List Char) : Prop := ∀ c ∈ rest.head?, c = ')'

theorem word_ends_once {v w r t : List Char} (hv : ∀ c ∈ v, c ∉ typeMarks)
    (hw : ∀ c ∈ w, c ∉ typeMarks) (hr : Marked r) (ht : Marked t) (same : v ++ r = w ++ t) :
    v = w ∧ r = t := by
  induction v generalizing w with
  | nil =>
    cases w with
    | nil => exact ⟨rfl, same⟩
    | cons d w =>
      obtain rfl : r = d :: (w ++ t) := same
      exact absurd (hr d rfl) (hw d List.mem_cons_self)
  | cons c v ih =>
    cases w with
    | nil =>
      obtain rfl : c :: (v ++ r) = t := same
      exact absurd (ht c rfl) (hv c List.mem_cons_self)
    | cons d w =>
      obtain ⟨rfl, later⟩ := List.cons.inj same
      obtain ⟨rfl, rest⟩ := ih (fun e member => hv e (List.mem_cons_of_mem c member))
        (fun e member => hw e (List.mem_cons_of_mem c member)) later
      exact ⟨rfl, rest⟩

theorem parted_marked {rest : List Char} (parted : Parted rest) : Marked rest := by
  intro c first
  rcases parted c first with rfl | rfl <;> simp [typeMarks]

theorem row_parted (fs : List Field) {rest : List Char} (closed : Closed rest) :
    Parted (partsText fs ++ rest) := by
  cases fs with
  | nil => exact fun c first => .inr (closed c first)
  | cons f fs =>
    rintro c ⟨⟩
    exact .inl rfl

/-- The text of the slot at the front of any text determines it, up to merging. -/
def Field.Determined (f : Field) : Prop :=
  ∀ g : Field, g.Positional → g.WellNamed → ∀ r t, Parted r → Parted t →
    f.bracketed.toList ++ r = g.bracketed.toList ++ t → f.merged = g.merged ∧ r = t

theorem row_determined {fs : List Field} (each : ∀ f ∈ fs, f.Determined) {gs : List Field}
    (positional : Field.AllPositional gs) (named : Field.AllWellNamed gs) {r t : List Char}
    (hr : Closed r) (ht : Closed t) (same : partsText fs ++ r = partsText gs ++ t) :
    Field.allMerged fs = Field.allMerged gs ∧ r = t := by
  induction fs generalizing gs with
  | nil =>
    cases gs with
    | nil => exact ⟨rfl, same⟩
    | cons g gs =>
      obtain rfl : r = ' ' :: _ := same
      exact absurd (hr ' ' rfl) (by decide)
  | cons f fs ih =>
    cases gs with
    | nil =>
      obtain rfl : ' ' :: _ = t := same
      exact absurd (ht ' ' rfl) (by decide)
    | cons g gs =>
      have tails : f.bracketed.toList ++ (partsText fs ++ r) =
          g.bracketed.toList ++ (partsText gs ++ t) := by
        simpa [partsText] using same
      obtain ⟨first, rest⟩ := each f List.mem_cons_self g positional.1 named.1 _ _
        (row_parted fs hr) (row_parted gs ht) tails
      obtain ⟨later, ends⟩ := ih (fun h member => each h (List.mem_cons_of_mem f member))
        positional.2 named.2 rest
      exact ⟨by simp only [Field.allMerged, first, later], ends⟩

theorem parts_positional {s : Shape} (canonical : s.Canonical) :
    Field.AllPositional s.parts := by
  cases s with
  | unknown => exact canonical.elim
  | primitive name => trivial
  | adt c arguments => exact canonical
  | map k v => exact ⟨canonical.1, canonical.2, trivial⟩

theorem parts_named {s : Shape} (named : s.WellNamed) : Field.AllWellNamed s.parts := by
  cases s with
  | unknown => exact named.elim
  | primitive name => trivial
  | adt c arguments => exact named.2.2
  | map k v => exact ⟨named.1, named.2, trivial⟩

theorem shape_determined {s s' : Shape} (named : s.WellNamed) (others : s'.WellNamed)
    (canonical : s'.Canonical) (each : ∀ f ∈ s.parts, f.Determined) {r t : List Char}
    (hr : Closed r) (ht : Closed t) (same : s.signature.toList ++ r = s'.signature.toList ++ t) :
    s.merged = s'.merged ∧ r = t := by
  -- the name ends at the first mark, and behind it the rows are taken apart
  rw [signature_chars, signature_chars, List.append_assoc, List.append_assoc] at same
  obtain ⟨heads, rows⟩ := word_ends_once (head_name named).2 (head_name others).2
    (parted_marked (row_parted _ hr)) (parted_marked (row_parted _ ht)) same
  obtain ⟨parts, ends⟩ := row_determined each (parts_positional canonical) (parts_named others)
    hr ht rows
  rw [merged_ofParts named, merged_ofParts others, String.toList_inj.mp heads, parts]
  exact ⟨rfl, ends⟩

theorem name_opens_nothing {name : String} (named : TypeName name) {r t : List Char} :
    name.toList ++ r ≠ '(' :: t := by
  intro same
  obtain ⟨present, chars⟩ := named
  cases letters : name.toList with
  | nil => exact present (String.toList_eq_nil_iff.mp letters)
  | cons c cs =>
    rw [letters] at same chars
    obtain ⟨rfl, -⟩ := List.cons.inj same
    exact chars '(' List.mem_cons_self (by decide)

theorem shape_named {f : Field} (named : f.WellNamed) : f.shape.WellNamed := by
  obtain ⟨name, type, shape⟩ := f
  exact named

theorem field_determined_of_parts {f : Field} (positional : f.Positional) (named : f.WellNamed)
    (each : ∀ p ∈ f.shape.parts, p.Determined) : f.Determined := by
  intro g gPositional gNamed r t hr ht same
  have here := shape_named named
  have there := shape_named gNamed
  have canonical := ((positional_iff g).mp gPositional).2.2
  rw [bracketed_chars, bracketed_chars] at same
  -- a bare name on one side only is told apart by the bracket, two in brackets end with theirs
  split at same
  next flat =>
    split at same
    next gFlat =>
      obtain ⟨heads, ends⟩ := word_ends_once (head_name here).2 (head_name there).2
        (parted_marked hr) (parted_marked ht) same
      have shapes : f.shape.merged = g.shape.merged := by
        rw [merged_ofParts here, merged_ofParts there, String.toList_inj.mp heads, flat, gFlat]
      exact ⟨merged_of_shape positional gPositional shapes, ends⟩
    next => exact absurd same (name_opens_nothing (head_name here))
  next =>
    split at same
    next => exact absurd same.symm (name_opens_nothing (head_name there))
    next =>
      have inner : f.shape.signature.toList ++ (')' :: r) =
          g.shape.signature.toList ++ (')' :: t) := by
        simpa using same
      obtain ⟨shapes, ends⟩ := shape_determined here there canonical each
        (by rintro c ⟨⟩; rfl) (by rintro c ⟨⟩; rfl) inner
      exact ⟨merged_of_shape positional gPositional shapes, (List.cons.inj ends).2⟩

mutual
theorem field_determined : (f : Field) → f.Positional → f.WellNamed → f.Determined
  | ⟨name, type, .unknown⟩ => fun _ named => named.elim
  | ⟨name, type, .primitive p⟩ => fun positional named =>
    field_determined_of_parts positional named (by simp [Shape.parts])
  | ⟨name, type, .adt c arguments⟩ => fun positional named =>
    field_determined_of_parts positional named
      (fields_determined arguments positional.2.2 named.2.2)
  | ⟨name, type, .map k v⟩ => fun positional named => by
    have key := field_determined k positional.2.2.1 named.1
    have value := field_determined v positional.2.2.2 named.2
    exact field_determined_of_parts positional named (by simp [Shape.parts, key, value])
theorem fields_determined : (fs : List Field) → Field.AllPositional fs → Field.AllWellNamed fs →
    ∀ f ∈ fs, f.Determined
  | [] => by simp
  | f :: fs => fun positional named => by
    have first := field_determined f positional.1 named.1
    have rest := fields_determined fs positional.2 named.2
    simpa [first] using rest
end

/-- Two types that were read have one text just if their shapes are the same up to merging. -/
theorem type_text_determines_type {n m : SExp} {f g : Field} (first : Dump.fieldOf n = .ok f)
    (second : Dump.fieldOf m = .ok g) (named : f.WellNamed) (others : g.WellNamed) :
    f.type = g.type ↔ f.shape.merged = g.shape.merged := by
  have fPositional := Dump.typed_positional (Dump.fieldOf_ok_iff.mp first)
  have gPositional := Dump.typed_positional (Dump.fieldOf_ok_iff.mp second)
  obtain ⟨-, fType, fShape⟩ := (positional_iff f).mp fPositional
  obtain ⟨-, gType, gShape⟩ := (positional_iff g).mp gPositional
  rw [fType, gType]
  constructor
  · intro same
    have parts := fields_determined f.shape.parts (parts_positional fShape)
      (parts_named (shape_named named))
    exact (shape_determined (shape_named named) (shape_named others) gShape parts
      (r := []) (t := []) (by simp [Closed]) (by simp [Closed])
      (by rw [same])).1
  · intro same
    rw [← merged_signature f.shape, same, merged_signature]

/-- A constructor of that name would be taken for the type of maps. -/
example :
    let types := [Field.ofPrimitive "ByStr20", Field.ofPrimitive "Uint128"]
    (Field.ofApplication "Map" types).type = "Map ByStr20 Uint128" ∧
      (Field.ofMap types[0] types[1]).type = "Map ByStr20 Uint128" := by
  decide

theorem nullary_argument_merged :
    let ident : SExp := .list [.atom "Ident", .list [.atom "SimpleLocal", .atom "Option"]]
    let bare : SExp := .list [.atom "Ident", .list [.atom "SimpleLocal", .atom "Uint128"]]
    let count := Field.ofPrimitive "Uint128"
    let nullary := Field.ofApplication "Uint128" []
    let f := Field.ofApplication "Option" [count]
    let g := Field.ofApplication "Option" [nullary]
    Dump.fieldOf (.list [.atom "ADT", ident, .list [.list [.atom "PrimType", .atom "Uint128"]]]) =
        .ok f ∧
      Dump.fieldOf (.list [.atom "ADT", ident, .list [.list [.atom "ADT", bare]]]) = .ok g ∧
      f.WellNamed ∧ g.WellNamed ∧ f ≠ g ∧ f.shape.merged = g.shape.merged ∧ f.type = g.type := by
  intro ident bare count nullary f g
  have first : Dump.fieldOf (.list [.atom "ADT", ident,
      .list [.list [.atom "PrimType", .atom "Uint128"]]]) = .ok f := by decide
  have second : Dump.fieldOf (.list [.atom "ADT", ident, .list [.list [.atom "ADT", bare]]]) =
      .ok g := by decide
  have option : TypeName "Option" := ⟨by decide, by simp [typeMarks]⟩
  have amount : TypeName "Uint128" := ⟨by decide, by simp [typeMarks]⟩
  have fNamed : f.WellNamed := ⟨option, by decide, amount, trivial⟩
  have gNamed : g.WellNamed := ⟨option, by decide, ⟨amount, by decide, trivial⟩, trivial⟩
  have shapes : f.shape.merged = g.shape.merged := rfl
  exact ⟨first, second, fNamed, gNamed, by decide, shapes,
    (type_text_determines_type first second fNamed gNamed).mpr shapes⟩

end TypedContracts
