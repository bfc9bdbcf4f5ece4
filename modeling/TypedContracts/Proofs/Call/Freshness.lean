import TypedContracts.Chain.Init
import TypedContracts.Proofs.Call.Literal
import TypedContracts.Proofs.Call.Written
import TypedContracts.Proofs.Dump.Canonical
import TypedContracts.Proofs.SExp.Printing

/-!
A model that was just read is never stale. Only a slot of unknown shape is, and neither a canonical
contract nor a literal that its constructors make has one, so no argument list built from these can
run into one.
-/
namespace TypedContracts

inductive Contract.ParameterList (c : Contract) : List Field → Prop where
  | deployment : c.ParameterList c.paramList
  | component {m : Component} (member : m ∈ c.components) : c.ParameterList m.params

theorem Contract.Canonical.parameters {c : Contract} (canonical : c.Canonical)
    {slots : List Field} (list : c.ParameterList slots) : ∀ f ∈ slots, f.Canonical := by
  cases list with
  | deployment => exact canonical.params
  | component member => exact canonical.components _ member

namespace Call
open Json

def Fresh {α : Type} (result : Result α) : Prop := ∀ slot, result ≠ .error (.staleCache slot)

theorem fresh_ok {α : Type} (a : α) : Fresh (.ok a : Result α) := by
  rintro slot ⟨⟩

theorem fresh_bind {α β : Type} {m : Result α} {k : α → Result β} (first : Fresh m)
    (rest : ∀ a, Fresh (k a)) : Fresh (m >>= k) := by
  cases m with
  | ok a => exact rest a
  | error e =>
    rintro slot ⟨⟩
    exact first slot rfl

theorem fresh_mapM {α β : Type} {f : α → Result β} {xs : List α} (each : ∀ x ∈ xs, Fresh (f x)) :
    Fresh (xs.mapM f) := by
  induction xs with
  | nil => exact fresh_ok []
  | cons x xs ih =>
    rw [List.mapM_cons]
    have rest := ih fun y member => each y (List.mem_cons_of_mem x member)
    exact fresh_bind (each x List.mem_cons_self) fun y => fresh_bind rest fun ys => fresh_ok _

theorem encodeFlat_fresh (arg : Json) {slot : Field} (canonical : slot.shape.Canonical) :
    Fresh (encodeFlat arg slot) := by
  intro label
  unfold encodeFlat
  cases shape : slot.shape with
  | unknown =>
    rw [shape] at canonical
    exact canonical.elim
  | primitive p => cases scalarText? arg <;> simp
  | adt c types => simp
  | map k v => simp

/-- The argument can be encoded or goes wrong in another way, whatever canonical slot it is for. -/
def Safe (arg : Json) : Prop := ∀ slot : Field, slot.shape.Canonical → Fresh (encode arg slot)

theorem encodeItems_fresh {missing : Nat → ArgumentFault} {i : Nat} {items : List Json}
    {types : List Field} (safe : ∀ item ∈ items, Safe item)
    (positional : Field.AllPositional types) : Fresh (encodeItems missing i items types) := by
  induction types generalizing i items with
  | nil =>
    rw [encodeItems]
    exact fresh_ok []
  | cons type types ih =>
    cases items with
    | nil =>
      rw [encodeItems]
      rintro slot ⟨⟩
    | cons item items =>
      have canonical := ((positional_iff type).mp positional.1).2.2
      have first := safe item List.mem_cons_self type canonical
      have rest := ih (i := i + 1) (fun next later => safe next (List.mem_cons_of_mem item later))
        positional.2
      rw [encodeItems]
      exact fresh_bind first fun value => fresh_bind rest fun values => fresh_ok _

theorem safe_of_applications {arg : Json} (each : ∀ name type c types,
    Field.AllPositional types → Fresh (encode arg ⟨name, type, .adt c types⟩)) : Safe arg := by
  rintro ⟨name, type, shape⟩ canonical
  cases shape with
  | adt c types => exact each name type c types canonical
  | _ =>
    have flat := encodeFlat_fresh arg canonical
    cases arg <;> exact flat

theorem flat_safe {arg : Json} (bare : ∀ items, arg ≠ .array items)
    (closed : ∀ members, arg ≠ .object members) : Safe arg := by
  refine safe_of_applications fun name type c types positional => ?_
  have flat : Fresh (encodeFlat arg ⟨name, type, .adt c types⟩) := encodeFlat_fresh arg positional
  cases arg with
  | array items => exact absurd rfl (bare items)
  | object members => exact absurd rfl (closed members)
  | _ => exact flat

theorem array_safe {items : List Json} (safe : ∀ item ∈ items, Safe item) :
    Safe (.array items) := by
  refine safe_of_applications fun name type c types positional => ?_
  rw [encode_array items rfl]
  exact fresh_bind (encodeItems_fresh safe positional) fun arguments => fresh_ok _

theorem literalArity_fresh (l : Literal) (found : Nat) : Fresh (literalArity l found) := by
  intro slot
  unfold literalArity
  split <;> simp

theorem encodeLiteral_fresh {l : Literal} (positional : Field.AllPositional l.types)
    (safe : Safe l.argument) : Fresh (encodeLiteral l) := by
  obtain ⟨c, types, argument⟩ := l
  by_cases row : ∃ items, argument = .array items
  · -- with the right count an array is encoded as it would be for a slot of this type
    obtain ⟨items, rfl⟩ := row
    by_cases exact : items.length = types.length
    · rw [← encode_array_exact "" "" c types items exact]
      exact safe ⟨"", "", .adt c types⟩ positional
    · rw [encodeLiteral_miscounted c types items exact]
      rintro slot ⟨⟩
  · have only : ∀ item ∈ (⟨c, types, argument⟩ : Literal).positional, Safe item := by
      intro item member
      obtain rfl : item = argument := by
        unfold Literal.positional at member
        split at member
        · exact absurd ⟨_, ‹_›⟩ row
        · split at member <;> simp_all
        · simpa using member
      exact safe
    exact fresh_bind (literalArity_fresh _ _) fun _ =>
      fresh_bind (encodeItems_fresh only positional) fun _ => fresh_ok _

theorem object_safe {members : List (String × Json)}
    (literal : ∀ l, Literal.ofJson? (.object members) = some l →
      Field.AllPositional l.types ∧ Safe l.argument) : Safe (.object members) := by
  refine safe_of_applications fun name type c types positional => ?_
  unfold encode
  split
  · cases Encoded.applicationOfJson? (.object members) <;> rintro slot ⟨⟩
  · split
    · split
      · rename_i l read
        obtain ⟨typed, safe⟩ := literal l read
        rw [encodeMember_eq (literal_argument read)]
        exact encodeLiteral_fresh typed safe
      · rintro slot ⟨⟩
    · exact encodeFlat_fresh _ positional

/-- An argument made of scalars, arrays, applications that are already encoded and literals of the
constructors, in any nesting. -/
inductive Built (ks : List Constructor) : Json → Prop where
  | null : Built ks .null
  | scalar {arg : Json} {s : String} (text : ScalarText arg s) : Built ks arg
  | array {items : List Json} (each : ∀ item ∈ items, Built ks item) : Built ks (.array items)
  | encoded {members : List (String × Json)} (here : members.any (·.1 == "arguments") = true) :
      Built ks (.object members)
  | literal {members : List (String × Json)} {name : String} {argument : Json} {l : Literal}
      (built : buildLiteral ks name argument = .ok l) (inner : Built ks argument)
      (written : Literal.ofJson? (.object members) = some l) : Built ks (.object members)

theorem built_safe {ks : List Constructor} (canonical : ∀ k ∈ ks, Field.AllPositional k.arguments)
    {arg : Json} (built : Built ks arg) : Safe arg := by
  induction built with
  | null => exact flat_safe (by simp) (by simp)
  | scalar text => cases text <;> exact flat_safe (by simp) (by simp)
  | array each ih => exact array_safe ih
  | @encoded members here =>
    refine safe_of_applications fun name type c types positional => ?_
    unfold encode
    rw [if_pos here]
    cases Encoded.applicationOfJson? (.object members) <;> rintro slot ⟨⟩
  | literal built inner written ih =>
    refine object_safe fun l read => ?_
    cases written.symm.trans read
    obtain ⟨k, member, rfl⟩ := buildLiteral_made built
    exact ⟨canonical k member, ih⟩

theorem encodeArgs_fresh {target : String} {slots : List Field} {args : List Json}
    (canonical : ∀ f ∈ slots, f.Canonical) (safe : ∀ arg ∈ args, Safe arg) :
    Fresh (encodeArgs target slots args) := by
  unfold encodeArgs
  split
  · refine fresh_mapM fun pair member => ?_
    obtain ⟨slot, arg⟩ := pair
    obtain ⟨inSlots, inArgs⟩ := List.of_mem_zip member
    have fresh := safe arg inArgs slot (canonical slot inSlots).2
    exact fresh_bind fresh fun value => fresh_ok _
  · rintro slot ⟨⟩

theorem contractInit_fresh {name : String} {libraries : Option (List LinkedLibrary)}
    {slots : List Field} {args : List Json} (canonical : ∀ f ∈ slots, f.Canonical)
    (safe : ∀ arg ∈ args, Safe arg) : Fresh (contractInit name libraries slots args) :=
  fresh_bind (encodeArgs_fresh canonical safe) fun _ => fresh_ok _

/-- What is read from a dump is canonical and stays as it is when it is stored and read again, and
no argument list built for it fails for a stale model. -/
theorem read_model_never_stale {text : String} {c : Contract} (read : Dump.read text = .ok c) :
    c.Canonical ∧ Contract.ofJson? c.toJson = some c ∧
    (∀ d, (Raw.parse? c.toJson.pretty >>= Contract.read? Raw.form) = some d → d = c) ∧
    (c.toJson.nesting ≤ depthLimit →
      (Raw.parse? c.toJson.pretty >>= Contract.read? Raw.form) = some c) ∧
    ∀ slots, c.ParameterList slots → ∀ args, (∀ arg ∈ args, Built c.constructors arg) →
      (∀ target, Fresh (encodeArgs target slots args)) ∧
      ∀ name libraries, Fresh (contractInit name libraries slots args) := by
  have canonical := Dump.read_canonical read
  refine ⟨canonical, contract_stored c, fun d => contract_parsed, contract_restored, ?_⟩
  intro slots list args built
  have known := canonical.parameters list
  have safe : ∀ arg ∈ args, Safe arg := fun arg member =>
    built_safe canonical.constructors (built arg member)
  exact ⟨fun target => encodeArgs_fresh known safe,
    fun name libraries => contractInit_fresh known safe⟩

def tankModule : SExp :=
  let ident (name : String) : SExp :=
    .list [.atom "Ident", .list [.atom "SimpleLocal", .atom name], .list []]
  let high : SExp := .list [.list [.atom "cname", ident "High"],
    .list [.atom "c_arg_types", .list [.list [.atom "PrimType", .atom "Uint32"]]]]
  let level : SExp := .list [.atom "LibTyp", ident "Level", .list [high]]
  let fill : SExp := .list [.list [.atom "comp_type", .atom "CompTrans"],
    .list [.atom "comp_name", ident "Fill"], .list [.atom "comp_params",
      .list [.list [ident "level", .list [.atom "ADT", ident "Level"]]]], .list []]
  .list [.list [.atom "libs", .list [.list [.list [.atom "lentries", .list [level]]]]],
    .list [.atom "contr", .list [.list [.atom "cname", ident "Tank"],
      .list [.atom "cparams", .list []], .list [.atom "cfields", .list []],
      .list [.atom "ccomps", .list [fill]]]]]

def fill : Component :=
  ⟨"CompTrans", "Fill", [(Field.ofApplication "Level" []).named "level"]⟩

def tank : Contract :=
  ⟨"Tank", none, [], [fill], [⟨"Level", "High", [.ofPrimitive "Uint32"]⟩]⟩

def highLevel : Literal := ⟨"High", [.ofPrimitive "Uint32"], .array [.integer 3]⟩

theorem tank_read : Dump.read tankModule.render = .ok tank := by
  have legible : SExp.Legible tankModule := by
    simp +decide [tankModule, SExp.Legible, SExp.LegibleItems]
  have parsed : Dump.parse tankModule.render = .ok tankModule := by
    rw [Dump.parse, SExp.parse_render tankModule legible]
    rfl
  have extracted : Dump.contractOf tankModule = .ok tank := by decide
  rw [Dump.read, parsed]
  exact extracted

theorem tank_filled :
    Dump.read tankModule.render = .ok tank ∧ tank.Canonical ∧ tank.toJson.nesting ≤ depthLimit ∧
      Built tank.constructors highLevel.toJson ∧
      (∀ target, Fresh (encodeArgs target fill.params [highLevel.toJson])) := by
  have fits : tank.toJson.nesting ≤ depthLimit := by decide
  have built : buildLiteral tank.constructors "High" (.array [.integer 3]) = .ok highLevel := by
    decide
  have inner : Built tank.constructors (.array [.integer 3]) :=
    .array (by simpa using .scalar (.integer 3))
  have literal : Built tank.constructors highLevel.toJson :=
    .literal built inner (literal_stored highLevel)
  obtain ⟨canonical, -, -, -, fresh⟩ := read_model_never_stale tank_read
  have list : tank.ParameterList fill.params := .component List.mem_cons_self
  exact ⟨tank_read, canonical, fits, literal,
    (fresh fill.params list [highLevel.toJson] (by simpa using literal)).1⟩

end Call
end TypedContracts
