import Mathlib
import TypedContracts.Call.Encode
import TypedContracts.Proofs.Result

/-!
Encoded values mirror the types of their slots. Which value stands for which argument, and where an
argument goes wrong, is said by the shape of the slot alone; the encoder finds just these values and
the first of these places. Arguments are free of objects, which bring types of their own.
-/
namespace TypedContracts.Call
open Json

mutual
def Plain : Json → Prop
  | .array items => PlainItems items
  | .object _ => False
  | .null | .bool _ | .integer _ | .binary _ | .text _ => True
def PlainItems : List Json → Prop
  | [] => True
  | item :: rest => Plain item ∧ PlainItems rest
end

inductive ScalarText : Json → String → Prop where
  | text (s : String) : ScalarText (.text s) s
  | integer (n : Int) : ScalarText (.integer n) (compact (.integer n))
  | binary (x : Binary64) : ScalarText (.binary x) (compact (.binary x))
  | bool (b : Bool) : ScalarText (.bool b) (compact (.bool b))

mutual
inductive Mirrors : Field → Json → Encoded → Prop where
  | scalar {slot : Field} {p s : String} {arg : Json} (shape : slot.shape = .primitive p)
      (text : ScalarText arg s) : Mirrors slot arg (.scalar s)
  | application {slot : Field} {c : String} {types : List Field} {items : List Json}
      {arguments : List Encoded} (shape : slot.shape = .adt c types)
      (each : MirrorsAll types items arguments) :
      Mirrors slot (.array items) (.application c (types.map (·.type)) arguments)
inductive MirrorsAll : List Field → List Json → List Encoded → Prop where
  | nil {items : List Json} : MirrorsAll [] items []
  | cons {type : Field} {types : List Field} {item : Json} {items : List Json} {value : Encoded}
      {values : List Encoded} (first : Mirrors type item value)
      (rest : MirrorsAll types items values) :
      MirrorsAll (type :: types) (item :: items) (value :: values)
end

inductive Inside (inner : Field) : Field → Prop where
  | here : Inside inner inner
  | argument {slot type : Field} {c : String} {types : List Field}
      (shape : slot.shape = .adt c types) (member : type ∈ types) (deeper : Inside inner type) :
      Inside inner slot
  | key {slot k v : Field} (shape : slot.shape = .map k v) (deeper : Inside inner k) :
      Inside inner slot
  | value {slot k v : Field} (shape : slot.shape = .map k v) (deeper : Inside inner v) :
      Inside inner slot

/-- What is wrong at a place of an argument. A place is the row of positions that leads there, and
an array that is too short goes wrong where an item is missing. -/
inductive Offends : Field → Json → List Nat → Error → Prop where
  | unknown {slot : Field} {arg : Json} (shape : slot.shape = .unknown) :
      Offends slot arg [] (.staleCache slot.label)
  | map {slot k v : Field} {arg : Json} (shape : slot.shape = .map k v) :
      Offends slot arg [] (.argumentShape (.mapSlot slot.label))
  | notScalar {slot : Field} {p : String} {arg : Json} (shape : slot.shape = .primitive p)
      (noText : ∀ s, ¬ScalarText arg s) :
      Offends slot arg [] (.argumentShape (.notScalar slot.label arg))
  | notArray {slot : Field} {c : String} {types : List Field} {arg : Json}
      (shape : slot.shape = .adt c types) (noItems : ∀ items, arg ≠ .array items) :
      Offends slot arg [] (.argumentShape (.notArray types.length slot.label arg))
  | tooShort {slot : Field} {c : String} {types : List Field} {items : List Json} {i : Nat}
      (shape : slot.shape = .adt c types) (ends : items.length ≤ i) (due : i < types.length) :
      Offends slot (.array items) [i] (.argumentShape (.missing i types.length slot.label))
  | inside {slot type : Field} {c : String} {types : List Field} {items : List Json} {item : Json}
      {i : Nat} {place : List Nat} {e : Error} (shape : slot.shape = .adt c types)
      (typed : types[i]? = some type) (given : items[i]? = some item)
      (deeper : Offends type item place e) : Offends slot (.array items) (i :: place) e

theorem scalarText_iff (arg : Json) (s : String) :
    scalarText? arg = some s ↔ ScalarText arg s := by
  constructor
  · intro text
    cases arg with
    | text t =>
      cases text
      exact .text _
    | integer n =>
      cases text
      exact .integer n
    | binary x =>
      cases text
      exact .binary x
    | bool b =>
      cases b <;> cases text
      · exact .bool false
      · exact .bool true
    | null => cases text
    | array items => cases text
    | object members => cases text
  · rintro ⟨⟩
    case bool b => cases b <;> rfl
    all_goals rfl

theorem scalarText_none_iff (arg : Json) :
    scalarText? arg = none ↔ ∀ s, ¬ScalarText arg s := by
  simp only [Option.eq_none_iff_forall_ne_some, ← scalarText_iff, ne_eq]

theorem encodeFlat_ok_iff {arg : Json} {slot : Field} {value : Encoded} :
    encodeFlat arg slot = .ok value ↔
      ∃ p s, slot.shape = .primitive p ∧ ScalarText arg s ∧ value = .scalar s := by
  unfold encodeFlat
  cases slot.shape with
  | primitive p =>
    simp only [← scalarText_iff, Shape.primitive.injEq, exists_and_left, exists_eq_left']
    cases scalarText? arg <;> simp [eq_comm]
  | unknown => simp
  | adt c types => simp
  | map k v => simp

theorem encode_eq_flat {arg : Json} (plain : Plain arg) {slot : Field}
    (apart : ∀ items c types, arg = .array items → slot.shape ≠ .adt c types) :
    encode arg slot = encodeFlat arg slot := by
  obtain ⟨name, type, shape⟩ := slot
  cases arg with
  | object members => exact plain.elim
  | array items =>
    cases shape with
    | adt c types => exact absurd rfl (apart items c types rfl)
    | _ => rfl
  | _ => rfl

theorem encode_array (items : List Json) {slot : Field} {c : String} {types : List Field}
    (shape : slot.shape = .adt c types) :
    encode (.array items) slot =
      (encodeItems (fun i => .missing i types.length slot.label) 0 items types >>= fun arguments =>
        pure (.application c (types.map (·.type)) arguments)) := by
  obtain ⟨name, type, shape'⟩ := slot
  cases shape
  rfl

theorem flat_mirrors {arg : Json} {slot : Field}
    (apart : ∀ items c types, arg = .array items → slot.shape ≠ .adt c types) (value : Encoded) :
    encodeFlat arg slot = .ok value ↔ Mirrors slot arg value := by
  rw [encodeFlat_ok_iff]
  constructor
  · rintro ⟨p, s, shape, text, rfl⟩
    exact .scalar shape text
  · intro mirrors
    cases mirrors with
    | scalar shape text => exact ⟨_, _, shape, text, rfl⟩
    | application shape each => exact absurd shape (apart _ _ _ rfl)

mutual
theorem encode_ok_iff_mirrors : (arg : Json) → Plain arg → ∀ (slot : Field) (value : Encoded),
    encode arg slot = .ok value ↔ Mirrors slot arg value
  | .array items, plain => by
    intro slot value
    by_cases application : ∃ c types, slot.shape = .adt c types
    · obtain ⟨c, types, shape⟩ := application
      have each := encodeItems_ok_iff_mirrors items plain types
      simp only [encode_array items shape, Result.bind_ok_iff, Result.pure_ok_iff, each]
      constructor
      · rintro ⟨arguments, each, rfl⟩
        exact .application shape each
      · intro mirrors
        cases mirrors with
        | scalar primitive text => cases shape.symm.trans primitive
        | application again each =>
          cases shape.symm.trans again
          exact ⟨_, each, rfl⟩
    · have apart : ∀ others c types, Json.array items = .array others → slot.shape ≠ .adt c types :=
        fun _ c types _ shape => application ⟨c, types, shape⟩
      rw [encode_eq_flat plain apart]
      exact flat_mirrors apart value
  | .object _, plain => plain.elim
  | .null, plain | .bool _, plain | .integer _, plain | .binary _, plain | .text _, plain => by
    intro slot value
    rw [encode_eq_flat plain (by rintro _ _ _ ⟨⟩)]
    exact flat_mirrors (by rintro _ _ _ ⟨⟩) value
theorem encodeItems_ok_iff_mirrors : (items : List Json) → PlainItems items →
    ∀ (types : List Field) (missing : Nat → ArgumentFault) (i : Nat) (values : List Encoded),
    encodeItems missing i items types = .ok values ↔ MirrorsAll types items values
  | items, plain, [] => by
    intro missing i values
    unfold encodeItems
    constructor
    · rintro ⟨⟩
      exact .nil
    · rintro ⟨⟩
      rfl
  | [], plain, type :: types => by
    intro missing i values
    unfold encodeItems
    constructor
    · rintro ⟨⟩
    · rintro ⟨⟩
  | item :: items, plain, type :: types => by
    intro missing i values
    have first := encode_ok_iff_mirrors item plain.1 type
    have rest := encodeItems_ok_iff_mirrors items plain.2 types missing (i + 1)
    unfold encodeItems
    simp only [Result.bind_ok_iff, Result.pure_ok_iff, first, rest]
    constructor
    · rintro ⟨value, first, values, rest, rfl⟩
      exact .cons first rest
    · rintro ⟨⟩
      rename_i first rest
      exact ⟨_, first, _, rest, rfl⟩
end

theorem mirrorsAll_member {types : List Field} {items : List Json} {values : List Encoded}
    (each : MirrorsAll types items values) {type : Field} (member : type ∈ types) :
    ∃ item value, Mirrors type item value := by
  induction types generalizing items values with
  | nil => cases member
  | cons first types ih =>
    cases each with
    | cons here rest =>
      rcases List.mem_cons.mp member with rfl | later
      · exact ⟨_, _, here⟩
      · exact ih rest later

theorem mirrors_known {slot inner : Field} (inside : Inside inner slot) {arg : Json}
    {value : Encoded} (mirrors : Mirrors slot arg value) :
    inner.shape ≠ .unknown ∧ ∀ k v, inner.shape ≠ .map k v := by
  induction inside generalizing arg value with
  | here =>
    cases mirrors with
    | scalar shape text => simp [shape]
    | application shape each => simp [shape]
  | argument shape member deeper ih =>
    cases mirrors with
    | scalar primitive text => cases shape.symm.trans primitive
    | application again each =>
      cases shape.symm.trans again
      obtain ⟨item, value, mirrors⟩ := mirrorsAll_member each member
      exact ih mirrors
  | key shape deeper ih =>
    cases mirrors with
    | scalar primitive text => cases shape.symm.trans primitive
    | application application each => cases shape.symm.trans application
  | value shape deeper ih =>
    cases mirrors with
    | scalar primitive text => cases shape.symm.trans primitive
    | application application each => cases shape.symm.trans application

inductive Judged {α : Type} (wrong : List Nat → Error → Prop) : Result α → Prop where
  | right {a : α} (nowhere : ∀ place e, ¬wrong place e) : Judged wrong (.ok a)
  | wrong {place : List Nat} {e : Error} (here : wrong place e)
      (first : ∀ other f, wrong other f → ¬other < place) : Judged wrong (.error e)

def OffendsAmong (missing : Nat → ArgumentFault) (i : Nat) (types : List Field) (items : List Json)
    (place : List Nat) (e : Error) : Prop :=
  (∃ j, items.length ≤ j ∧ j < types.length ∧ place = [i + j] ∧
    e = .argumentShape (missing (i + j))) ∨
  ∃ j type item rest, types[j]? = some type ∧ items[j]? = some item ∧ place = (i + j) :: rest ∧
    Offends type item rest e

theorem offends_array_iff {slot : Field} {c : String} {types : List Field}
    (shape : slot.shape = .adt c types) (items : List Json) (place : List Nat) (e : Error) :
    Offends slot (.array items) place e ↔
      OffendsAmong (fun i => .missing i types.length slot.label) 0 types items place e := by
  unfold OffendsAmong
  simp only [Nat.zero_add]
  constructor
  · intro offends
    cases offends with
    | unknown unknown => cases shape.symm.trans unknown
    | map map => cases shape.symm.trans map
    | notScalar primitive noText => cases shape.symm.trans primitive
    | notArray again noItems => exact absurd rfl (noItems items)
    | tooShort again ends due =>
      cases shape.symm.trans again
      exact .inl ⟨_, ends, due, rfl, rfl⟩
    | inside again typed given deeper =>
      cases shape.symm.trans again
      exact .inr ⟨_, _, _, _, typed, given, rfl, deeper⟩
  · rintro (⟨j, ends, due, rfl, rfl⟩ | ⟨j, type, item, rest, typed, given, rfl, deeper⟩)
    · exact .tooShort shape ends due
    · exact .inside shape typed given deeper

theorem offendsAmong_cons {missing : Nat → ArgumentFault} {i : Nat} {type : Field}
    {types : List Field} {item : Json} {items : List Json} {place : List Nat} {e : Error} :
    OffendsAmong missing i (type :: types) (item :: items) place e ↔
      (∃ rest, place = i :: rest ∧ Offends type item rest e) ∨
        OffendsAmong missing (i + 1) types items place e := by
  have next : ∀ j, i + 1 + j = i + (j + 1) := by omega
  unfold OffendsAmong
  constructor
  · rintro (⟨j, ends, due, rfl, rfl⟩ | ⟨j, t, a, rest, typed, given, rfl, deeper⟩)
    · cases j with
      | zero => simp at ends
      | succ j =>
        refine .inr (.inl ⟨j, ?_, ?_, ?_⟩)
        · simpa using ends
        · simpa using due
        · simp [next]
    · cases j with
      | zero =>
        cases typed
        cases given
        exact .inl ⟨rest, rfl, deeper⟩
      | succ j =>
        rw [← next]
        exact .inr (.inr ⟨j, t, a, rest, typed, given, rfl, deeper⟩)
  · rintro (⟨rest, rfl, deeper⟩ | ⟨j, ends, due, rfl, rfl⟩ |
      ⟨j, t, a, rest, typed, given, rfl, deeper⟩)
    · exact .inr ⟨0, type, item, rest, rfl, rfl, rfl, deeper⟩
    · refine .inl ⟨j + 1, ?_, ?_, ?_⟩
      · simpa using ends
      · simpa using due
      · simp [next]
    · rw [next]
      exact .inr ⟨j + 1, t, a, rest, typed, given, rfl, deeper⟩

theorem offendsAmong_place {missing : Nat → ArgumentFault} {i : Nat} {types : List Field}
    {items : List Json} {place : List Nat} {e : Error}
    (offends : OffendsAmong missing i types items place e) :
    ∃ j rest, place = (i + j) :: rest := by
  rcases offends with ⟨j, _, _, rfl, _⟩ | ⟨j, _, _, rest, _, _, rfl, _⟩
  · exact ⟨j, [], rfl⟩
  · exact ⟨j, rest, rfl⟩

theorem judged_here {α : Type} {wrong : List Nat → Error → Prop} {e : Error} (here : wrong [] e) :
    Judged wrong (.error e : Result α) :=
  .wrong here fun other _ _ => List.not_lt_nil other

theorem flat_judged {arg : Json} {slot : Field}
    (apart : ∀ items c types, arg = .array items → slot.shape ≠ .adt c types) :
    Judged (Offends slot arg) (encodeFlat arg slot) := by
  unfold encodeFlat
  cases shape : slot.shape with
  | unknown => exact judged_here (.unknown shape)
  | map k v => exact judged_here (.map shape)
  | adt c types =>
    exact judged_here (.notArray shape fun items array => apart items c types array shape)
  | primitive p =>
    dsimp only
    split
    · rename_i s text
      refine .right fun place e offends => ?_
      cases offends with
      | notScalar _ noText => exact noText s ((scalarText_iff arg s).mp text)
      | unknown other => cases shape.symm.trans other
      | map other => cases shape.symm.trans other
      | notArray other _ => cases shape.symm.trans other
      | tooShort other _ _ => cases shape.symm.trans other
      | inside other _ _ _ => cases shape.symm.trans other
    · rename_i noText
      exact judged_here (.notScalar shape ((scalarText_none_iff arg).mp noText))

theorem judged_congr {α : Type} {wrong other : List Nat → Error → Prop} {r : Result α}
    (same : ∀ place e, wrong place e ↔ other place e) (judged : Judged wrong r) :
    Judged other r := by
  have equal : wrong = other := funext fun place => funext fun e => propext (same place e)
  rwa [← equal]

theorem judged_bind {α β : Type} {wrong : List Nat → Error → Prop} {r : Result α} {f : α → β}
    (judged : Judged wrong r) : Judged wrong (r >>= fun a => pure (f a)) := by
  cases judged with
  | right nowhere => exact .right nowhere
  | wrong here first => exact .wrong here first

mutual
theorem encode_judged : (arg : Json) → Plain arg → ∀ slot : Field,
    Judged (Offends slot arg) (encode arg slot)
  | .array items, plain => by
    intro slot
    by_cases application : ∃ c types, slot.shape = .adt c types
    · obtain ⟨c, types, shape⟩ := application
      rw [encode_array items shape]
      have each := encodeItems_judged items plain types
        (fun i => .missing i types.length slot.label) 0
      exact judged_bind (judged_congr (fun _ _ => (offends_array_iff shape items _ _).symm) each)
    · have apart : ∀ others c types, Json.array items = .array others → slot.shape ≠ .adt c types :=
        fun _ c types _ shape => application ⟨c, types, shape⟩
      rw [encode_eq_flat plain apart]
      exact flat_judged apart
  | .object _, plain => plain.elim
  | .null, plain | .bool _, plain | .integer _, plain | .binary _, plain | .text _, plain => by
    intro slot
    rw [encode_eq_flat plain (by rintro _ _ _ ⟨⟩)]
    exact flat_judged (by rintro _ _ _ ⟨⟩)
theorem encodeItems_judged : (items : List Json) → PlainItems items →
    ∀ (types : List Field) (missing : Nat → ArgumentFault) (i : Nat),
    Judged (OffendsAmong missing i types items) (encodeItems missing i items types)
  | items, plain, [] => by
    intro missing i
    unfold encodeItems
    refine .right ?_
    rintro place e (⟨j, _, due, _⟩ | ⟨j, _, _, _, typed, _⟩)
    · simp at due
    · simp at typed
  | [], plain, type :: types => by
    intro missing i
    unfold encodeItems
    refine .wrong (.inl ⟨0, Nat.le_refl 0, Nat.zero_lt_succ _, rfl, rfl⟩) ?_
    rintro other f (⟨j, _, _, rfl, _⟩ | ⟨j, _, _, _, _, given, _⟩)
    · simp [List.cons_lt_cons_iff]
    · simp at given
  | item :: items, plain, type :: types => by
    intro missing i
    have first := encode_judged item plain.1 type
    have rest := encodeItems_judged items plain.2 types missing (i + 1)
    unfold encodeItems
    cases encoded : encode item type with
    | error e =>
      rw [encoded] at first
      cases first with
      | wrong here least =>
        -- What is wrong in a later item stands at a later place.
        refine .wrong (offendsAmong_cons.mpr (.inl ⟨_, rfl, here⟩)) fun other f offends => ?_
        rcases offendsAmong_cons.mp offends with ⟨_, rfl, inItem⟩ | later
        · simpa [List.cons_lt_cons_iff] using least _ _ inItem
        · obtain ⟨j, rest, rfl⟩ := offendsAmong_place later
          simp only [List.cons_lt_cons_iff]
          omega
    | ok value =>
      rw [encoded] at first
      cases first with
      | right nowhere =>
        refine judged_congr (fun place e => ?_) (judged_bind (f := (value :: ·)) rest)
        rw [offendsAmong_cons, or_iff_right]
        rintro ⟨_, _, inItem⟩
        exact nowhere _ _ inItem
end

theorem offends_unique {slot : Field} {arg : Json} {place : List Nat} {e f : Error}
    (first : Offends slot arg place e) (second : Offends slot arg place f) : e = f := by
  induction first generalizing f with
  | unknown shape =>
    cases second with
    | unknown _ => rfl
    | _ other => cases shape.symm.trans other
  | map shape =>
    cases second with
    | map _ => rfl
    | _ other => cases shape.symm.trans other
  | notScalar shape _ =>
    cases second with
    | notScalar _ _ => rfl
    | _ other => cases shape.symm.trans other
  | notArray shape _ =>
    cases second with
    | notArray other _ =>
      cases shape.symm.trans other
      rfl
    | _ other => cases shape.symm.trans other
  | tooShort shape ends due =>
    cases second with
    | tooShort other _ _ =>
      cases shape.symm.trans other
      rfl
    | inside _ _ given _ =>
      rw [List.getElem?_eq_none ends] at given
      cases given
  | inside shape typed given _ ih =>
    cases second with
    | tooShort _ ends _ =>
      rw [List.getElem?_eq_none ends] at given
      cases given
    | inside other typedToo givenToo deeper =>
      cases shape.symm.trans other
      cases typed.symm.trans typedToo
      cases given.symm.trans givenToo
      exact ih deeper

theorem encode_error_iff {arg : Json} (plain : Plain arg) (slot : Field) (e : Error) :
    encode arg slot = .error e ↔
      ∃ place, Offends slot arg place e ∧ ∀ other f, Offends slot arg other f → ¬other < place := by
  have judged := encode_judged arg plain slot
  generalize encode arg slot = result at judged
  constructor
  · rintro rfl
    cases judged with
    | wrong here first => exact ⟨_, here, first⟩
  · rintro ⟨place, here, first⟩
    cases judged with
    | right nowhere => exact absurd here (nowhere place e)
    | @wrong other f there least =>
      obtain rfl : place = other :=
        le_antisymm (not_lt.mp (first _ _ there)) (not_lt.mp (least _ _ here))
      rw [offends_unique here there]

/-- An argument is encoded as the value that mirrors the type of its slot, which has then no map and
no unknown part; otherwise the error is that of the first place where something is wrong. -/
theorem encoding_mirrors_type (slot : Field) (arg : Json) (plain : Plain arg) :
    (∀ value, encode arg slot = .ok value ↔ Mirrors slot arg value) ∧
    (∀ value, encode arg slot = .ok value → ∀ inner, Inside inner slot →
      inner.shape ≠ .unknown ∧ ∀ k v, inner.shape ≠ .map k v) ∧
    ∀ e, encode arg slot = .error e ↔
      ∃ place, Offends slot arg place e ∧
        ∀ other f, Offends slot arg other f → ¬other < place := by
  have mirrors := encode_ok_iff_mirrors arg plain slot
  refine ⟨mirrors, ?_, encode_error_iff plain slot⟩
  intro value encoded inner inside
  exact mirrors_known inside ((mirrors value).mp encoded)

theorem nested_pair_mirrored :
    let part : Field := ⟨"", "Option Uint64", .adt "Option" [.ofPrimitive "Uint64"]⟩
    let slot : Field :=
      ⟨"entry", "Pair String (Option Uint64)", .adt "Pair" [.ofPrimitive "String", part]⟩
    let whole : Json := .array [.text "a", .array [.integer 7]]
    let short : Json := .array [.text "a", .array []]
    let value : Encoded := .application "Pair" ["String", "Option Uint64"]
      [.scalar "a", .application "Option" ["Uint64"] [.scalar "7"]]
    let fault : Error := .argumentShape (.missing 0 1 "Option Uint64")
    Plain whole ∧ Plain short ∧ Mirrors slot whole value ∧
      ∃ place, Offends slot short place fault ∧
        ∀ other f, Offends slot short other f → ¬other < place := by
  intro part slot whole short value fault
  have wholePlain : Plain whole := ⟨trivial, ⟨trivial, trivial⟩, trivial⟩
  have shortPlain : Plain short := ⟨trivial, trivial, trivial⟩
  have encoded : encode whole slot = .ok value := by decide
  have refused : encode short slot = .error fault := by decide
  exact ⟨wholePlain, shortPlain, ((encoding_mirrors_type slot whole wholePlain).1 value).mp encoded,
    ((encoding_mirrors_type slot short shortPlain).2.2 fault).mp refused⟩

end TypedContracts.Call
