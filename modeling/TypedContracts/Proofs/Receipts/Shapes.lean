import TypedContracts.Proofs.Result
import TypedContracts.Proofs.Value.Integers
import TypedContracts.Receipts.Events

/-!
What event parameters are simplified to. An integer type, `Bool` and `Option` promise values of a
certain shape, and only those should be simplified. Integers are handled so, but every constructor
of a `Bool` other than `True` counts as `False` and every one of an `Option` other than `None` as
`Some`, an argument that does not decode stands for the whole value, and types whose names merely
begin with `Option` are treated like it.
-/
namespace TypedContracts
open Json

def IsOption (type : String) : Prop := type = "Option" ∨ "Option ".toList <+: type.toList

def Shaped (type : String) : Prop := isIntegerType type = true ∨ type = "Bool" ∨ IsOption type

def firstItem? (key : String) (value : Json) : Option Json := do
  let items ← (← value.member? key).asArray?
  items.head?

def firstArgument? (value : Json) : Option Json :=
  (firstItem? "arguments" value).filter fun x => !x.isNull

def firstType? (value : Json) : Option String := firstItem? "argtypes" value >>= asText?

def declaredContent? (value : Json) : Option Decoded := do
  let content ← firstArgument? value
  let type ← firstType? value
  (Decoded.ofScalar type content).toOption

/-- The values of the promised shapes, and what they stand for. -/
inductive Promised : String → Json → Decoded → Prop where
  | integer {type : String} {value : Json} {d : Decoded} (integer : isIntegerType type = true)
      (reads : Decoded.ofScalar type value = .ok d) : Promised type value d
  | true {value : Json} (named : constructorName? value = some "True") :
      Promised "Bool" value (.bool true)
  | false {value : Json} (named : constructorName? value = some "False") :
      Promised "Bool" value (.bool false)
  | none {type : String} {value : Json} (option : IsOption type)
      (named : constructorName? value = some "None") : Promised type value .null
  | some {type : String} {value : Json} {d : Decoded} (option : IsOption type)
      (named : constructorName? value = some "Some") (content : declaredContent? value = some d) :
      Promised type value d

/-- A value of the promised shape becomes what it stands for, any other stays as it came. -/
def Faithful (type : String) (value : Json) (d : Decoded) : Prop :=
  Promised type value d ∨ d = .json value ∧ ∀ e, ¬Promised type value e

/-- Values of another shape that are simplified all the same. -/
inductive Misread : String → Json → Decoded → Prop where
  | bool {value : Json} {name : String} (named : constructorName? value = some name)
      (notTrue : name ≠ "True") (notFalse : name ≠ "False") : Misread "Bool" value (.bool false)
  | constructor {type name : String} {value content : Json} (option : IsOption type)
      (named : constructorName? value = some name) (notNone : name ≠ "None")
      (notSome : name ≠ "Some") (argument : firstArgument? value = some content) :
      Misread type value ((declaredContent? value).getD (.json content))
  | argument {type : String} {value content : Json} (option : IsOption type)
      (named : constructorName? value = some "Some")
      (argument : firstArgument? value = some content) (unread : declaredContent? value = none) :
      Misread type value (.json content)

/-- A value taken for one of an `Option`, whatever its type. -/
inductive Unwrapped (value : Json) : Decoded → Prop where
  | null (named : constructorName? value = some "None") : Unwrapped value .null
  | content {name : String} {content : Json} (named : constructorName? value = some name)
      (notNone : name ≠ "None") (argument : firstArgument? value = some content) :
      Unwrapped value ((declaredContent? value).getD (.json content))

theorem isIntegerType_iff (type : String) :
    isIntegerType type = true ↔ ∃ kind, (type, kind) ∈ IntegerKind.types := by
  simp only [isIntegerType, Option.isSome_iff_exists, IntegerKind.ofType_iff]

theorem integer_unlike {type : String} (integer : isIntegerType type = true) :
    ¬"Option".toList <+: type.toList ∧ type ≠ "Bool" := by
  obtain ⟨kind, known⟩ := (isIntegerType_iff type).mp integer
  have unlike : ∀ t ∈ IntegerKind.types, ¬"Option".toList <+: t.1.toList ∧ t.1 ≠ "Bool" := by
    decide
  exact unlike (type, kind) known

theorem option_begins {type : String} (option : IsOption type) :
    "Option".toList <+: type.toList := by
  rcases option with whole | applied
  · rw [whole]
  · have start : "Option".toList <+: "Option ".toList := by decide
    exact start.trans applied

theorem option_unlike {type : String} (option : IsOption type) :
    isIntegerType type = false ∧ type ≠ "Bool" := by
  have begins := option_begins option
  constructor
  · rw [Bool.eq_false_iff]
    exact fun integer => (integer_unlike integer).1 begins
  · intro bool
    rw [bool] at begins
    revert begins
    decide

theorem decodeParam_bool (value : Json) : decodeParam "Bool" value = decodeBool value := by
  have other : isIntegerType "Bool" = false ∧ "Option".toList.isPrefixOf "Bool".toList = false := by
    decide
  simp [decodeParam, other]

theorem decodeParam_begins {type : String} (begins : "Option".toList <+: type.toList)
    (value : Json) : decodeParam type value = decodeOption value := by
  have integer : ¬isIntegerType type = true := fun integer => (integer_unlike integer).1 begins
  rw [decodeParam, if_neg integer, if_pos (List.isPrefixOf_iff_prefix.mpr begins)]

theorem decodeParam_other {type : String} (integer : ¬isIntegerType type = true)
    (begins : ¬"Option".toList <+: type.toList) (bool : type ≠ "Bool") (value : Json) :
    decodeParam type value = .json value := by
  rw [decodeParam, if_neg integer, if_neg (mt List.isPrefixOf_iff_prefix.mp begins), if_neg bool]

theorem member_smaller {key : String} {value item : Json}
    (member : value.member? key = some item) : sizeOf item < sizeOf value := by
  cases value with
  | object members =>
    obtain ⟨before, after, whole, _⟩ := List.lookup_eq_some_iff.mp member
    have inside : (key, item) ∈ members := by simp [whole]
    have smaller := List.sizeOf_lt_of_mem inside
    simp only [Prod.mk.sizeOf_spec] at smaller
    simp only [Json.object.sizeOf_spec]
    omega
  | _ => cases member

theorem firstItem_smaller {key : String} {value x : Json} (first : firstItem? key value = some x) :
    sizeOf x < sizeOf value := by
  obtain ⟨list, member, rest⟩ := Option.bind_eq_some_iff.mp first
  obtain ⟨items, array, head⟩ := Option.bind_eq_some_iff.mp rest
  obtain ⟨tail, whole⟩ := List.head?_eq_some_iff.mp head
  have smaller := member_smaller member
  cases list with
  | array _ =>
    obtain rfl := Option.some.inj array
    simp only [whole, Json.array.sizeOf_spec, List.cons.sizeOf_spec] at smaller
    omega
  | _ => cases array

theorem firstArgument_iff {value content : Json} : firstArgument? value = some content ↔
    firstItem? "arguments" value = some content ∧ content.isNull = false := by
  rw [firstArgument?, Option.filter_eq_some_iff, Bool.not_eq_true']

theorem firstArgument_ne {value content : Json} (argument : firstArgument? value = some content) :
    content ≠ value := by
  intro same
  have smaller := firstItem_smaller (firstArgument_iff.mp argument).1
  rw [same] at smaller
  exact Nat.lt_irrefl _ smaller

theorem scalar_json {type : String} {value other : Json}
    (reads : Decoded.ofScalar type value = .ok (.json other)) : other = value := by
  unfold Decoded.ofScalar at reads
  split at reads
  · exact (Decoded.json.inj (Except.ok.inj reads)).symm
  · rename_i kind _
    unfold Decoded.readAs at reads
    split at reads
    · cases reads
    · have found := Result.ofOption_ok_iff.mp reads
      cases kind <;> simp at found

theorem declaredContent_argument {value : Json} {d : Decoded}
    (content : declaredContent? value = some d) : ∃ x type, firstArgument? value = some x ∧
      firstType? value = some type ∧ Decoded.ofScalar type x = .ok d := by
  obtain ⟨x, argument, rest⟩ := Option.bind_eq_some_iff.mp content
  obtain ⟨type, declared, reads⟩ := Option.bind_eq_some_iff.mp rest
  exact ⟨x, type, argument, declared, Result.toOption_some_iff.mp reads⟩

theorem declaredContent_ne {value : Json} {d : Decoded}
    (content : declaredContent? value = some d) : d ≠ .json value := by
  obtain ⟨x, type, argument, _, reads⟩ := declaredContent_argument content
  intro same
  rw [same] at reads
  exact firstArgument_ne argument (scalar_json reads).symm

theorem unwrapped_ne {value : Json} {d : Decoded} (unwrapped : Unwrapped value d) :
    d ≠ .json value := by
  cases unwrapped with
  | null named => simp
  | @content name content named notNone argument =>
    cases read : declaredContent? value with
    | none =>
      intro same
      exact firstArgument_ne argument (Decoded.json.inj same)
    | some d => exact declaredContent_ne read

theorem firstOf_eq (key : String) (value : Json) :
    firstOf key value = (firstItem? key value).getD .null := by
  unfold firstOf firstItem?
  cases value.member? key with
  | none => rfl
  | some list =>
    cases list with
    | array items => cases items <;> rfl
    | _ => rfl

theorem firstOf_argtypes (value : Json) :
    (firstOf "argtypes" value).asText? = firstType? value := by
  rw [firstOf_eq, firstType?]
  cases firstItem? "argtypes" value <;> rfl

theorem firstOf_argument {value content : Json} (argument : firstArgument? value = some content) :
    firstOf "arguments" value = content ∧ content.isNull = false := by
  obtain ⟨first, present⟩ := firstArgument_iff.mp argument
  exact ⟨by rw [firstOf_eq, first]; rfl, present⟩

theorem firstOf_no_argument {value : Json} (argument : firstArgument? value = none) :
    (firstOf "arguments" value).isNull = true := by
  rw [firstOf_eq]
  cases first : firstItem? "arguments" value with
  | none => rfl
  | some x =>
    by_contra present
    have taken := firstArgument_iff.mpr ⟨first, Bool.eq_false_iff.mpr present⟩
    rw [argument] at taken
    cases taken

theorem content_read {value content : Json} (argument : firstArgument? value = some content) :
    (match Decoded.ofScalar ((firstType? value).getD "") content with
      | .ok decoded => decoded
      | .error _ => .json content) = (declaredContent? value).getD (.json content) := by
  unfold declaredContent?
  rw [argument]
  cases declared : firstType? value with
  | none =>
    have untyped : Decoded.ofScalar "" content = .ok (.json content) := rfl
    simp [untyped]
  | some type =>
    cases reads : Decoded.ofScalar type content with
    | ok d => simp [reads, Except.toOption]
    | error e => simp [reads, Except.toOption]

theorem decodeOption_unwrapped {value : Json} {d : Decoded} (unwrapped : Unwrapped value d) :
    decodeOption value = d := by
  unfold decodeOption
  cases unwrapped with
  | null named => rw [named]; rfl
  | @content name content named notNone argument =>
    obtain ⟨first, present⟩ := firstOf_argument argument
    rw [named]
    simp only [notNone, ↓reduceIte, first, present, Bool.false_eq_true, firstOf_argtypes]
    exact content_read argument

theorem decodeOption_kept {value : Json} (kept : ∀ d, ¬Unwrapped value d) :
    decodeOption value = .json value := by
  unfold decodeOption
  cases named : constructorName? value with
  | none => rfl
  | some name =>
    have notNone : name ≠ "None" := by
      intro none
      exact kept .null (.null (named.trans (congrArg some none)))
    have argument : firstArgument? value = none := by
      cases argument : firstArgument? value with
      | none => rfl
      | some content => exact absurd (.content named notNone argument) (kept _)
    simp only [notNone, ↓reduceIte, firstOf_no_argument argument]

theorem promised_integer_iff {type : String} (integer : isIntegerType type = true) (value : Json)
    (d : Decoded) : Promised type value d ↔ Decoded.ofScalar type value = .ok d := by
  constructor
  · intro promised
    cases promised with
    | integer _ reads => exact reads
    | true named => exact absurd rfl (integer_unlike integer).2
    | false named => exact absurd rfl (integer_unlike integer).2
    | none option named => exact absurd (option_begins option) (integer_unlike integer).1
    | some option named content => exact absurd (option_begins option) (integer_unlike integer).1
  · exact .integer integer

theorem promised_bool_iff (value : Json) (d : Decoded) : Promised "Bool" value d ↔
    constructorName? value = some "True" ∧ d = .bool true ∨
      constructorName? value = some "False" ∧ d = .bool false := by
  constructor
  · intro promised
    cases promised with
    | integer integer _ => exact absurd rfl (integer_unlike integer).2
    | true named => exact .inl ⟨named, rfl⟩
    | false named => exact .inr ⟨named, rfl⟩
    | none option named => exact absurd rfl (option_unlike option).2
    | some option named content => exact absurd rfl (option_unlike option).2
  · intro either
    rcases either with ⟨named, equal⟩ | ⟨named, equal⟩
    · rw [equal]
      exact .true named
    · rw [equal]
      exact .false named

theorem promised_option_iff {type : String} (option : IsOption type) (value : Json) (d : Decoded) :
    Promised type value d ↔ constructorName? value = some "None" ∧ d = .null ∨
      constructorName? value = some "Some" ∧ declaredContent? value = some d := by
  obtain ⟨noInteger, noBool⟩ := option_unlike option
  constructor
  · intro promised
    cases promised with
    | integer integer _ => rw [noInteger] at integer; cases integer
    | true named => exact absurd rfl noBool
    | false named => exact absurd rfl noBool
    | none _ named => exact .inl ⟨named, rfl⟩
    | some _ named content => exact .inr ⟨named, content⟩
  · intro either
    rcases either with ⟨named, equal⟩ | ⟨named, content⟩
    · rw [equal]
      exact .none option named
    · exact .some option named content

/-- A value that is misread is of no promised shape and does not stay as it came. -/
theorem misread_unfaithful {type : String} {value : Json} {d : Decoded}
    (misread : Misread type value d) : ¬Faithful type value d := by
  have apart : d ≠ .json value := by
    cases misread with
    | bool => simp
    | constructor _ named notNone _ argument => exact unwrapped_ne (.content named notNone argument)
    | argument _ _ argument _ => exact fun same => firstArgument_ne argument (Decoded.json.inj same)
  intro faithful
  rcases faithful with promised | ⟨same, _⟩
  · cases misread with
    | bool named notTrue notFalse =>
      rw [promised_bool_iff, named] at promised
      simp [notTrue, notFalse] at promised
    | constructor option named notNone notSome argument =>
      rw [promised_option_iff option, named] at promised
      simp [notNone, notSome] at promised
    | argument option named argument unread =>
      rw [promised_option_iff option, named, unread] at promised
      simp at promised
  · exact apart same

theorem decodeParam_misread {type : String} {value : Json} {d : Decoded}
    (misread : Misread type value d) : decodeParam type value = d := by
  cases misread with
  | bool named notTrue notFalse =>
    rw [decodeParam_bool, decodeBool, named]
    simp [notTrue]
  | constructor option named notNone notSome argument =>
    rw [decodeParam_begins (option_begins option)]
    exact decodeOption_unwrapped (.content named notNone argument)
  | argument option named argument unread =>
    have notNone : "Some" ≠ "None" := by decide
    have whole := decodeOption_unwrapped (.content named notNone argument)
    rw [unread] at whole
    rw [decodeParam_begins (option_begins option)]
    exact whole

theorem integer_faithful {type : String} (integer : isIntegerType type = true) (value : Json) :
    Faithful type value (decodeParam type value) := by
  rw [decodeParam, if_pos integer]
  cases reads : Decoded.ofScalar type value with
  | ok d => exact .inl (.integer integer reads)
  | error e =>
    refine .inr ⟨rfl, fun d promised => ?_⟩
    rw [promised_integer_iff integer, reads] at promised
    cases promised

theorem bool_settled (value : Json) : Faithful "Bool" value (decodeParam "Bool" value) ∨
    ∃ d, Misread "Bool" value d := by
  rw [decodeParam_bool, decodeBool]
  cases named : constructorName? value with
  | none =>
    left
    refine .inr ⟨rfl, fun d promised => ?_⟩
    rw [promised_bool_iff, named] at promised
    simp at promised
  | some name =>
    by_cases isTrue : name = "True"
    · subst isTrue
      exact .inl (.inl (.true named))
    by_cases isFalse : name = "False"
    · subst isFalse
      exact .inl (.inl (.false named))
    · exact .inr ⟨_, .bool named isTrue isFalse⟩

theorem option_settled {type : String} (option : IsOption type) (value : Json) :
    Faithful type value (decodeParam type value) ∨ ∃ d, Misread type value d := by
  rw [decodeParam_begins (option_begins option)]
  by_cases unwrapped : ∃ d, Unwrapped value d
  · obtain ⟨d, unwrapped⟩ := unwrapped
    rw [decodeOption_unwrapped unwrapped]
    cases unwrapped with
    | null named => exact .inl (.inl (.none option named))
    | @content name content named notNone argument =>
      by_cases isSome : name = "Some"
      · subst isSome
        cases read : declaredContent? value with
        | none => exact .inr ⟨_, .argument option named argument read⟩
        | some d => exact .inl (.inl (.some option named read))
      · exact .inr ⟨_, .constructor option named notNone isSome argument⟩
  · rw [decodeOption_kept (not_exists.mp unwrapped)]
    left
    refine .inr ⟨rfl, fun d promised => unwrapped ?_⟩
    rcases (promised_option_iff option value d).mp promised with ⟨named, _⟩ | ⟨named, content⟩
    · exact ⟨_, .null named⟩
    · obtain ⟨x, _, argument, _⟩ := declaredContent_argument content
      exact ⟨_, .content named (by decide) argument⟩

theorem shaped_settled {type : String} (shaped : Shaped type) (value : Json) :
    Faithful type value (decodeParam type value) ∨ ∃ d, Misread type value d := by
  rcases shaped with integer | bool | option
  · exact .inl (integer_faithful integer value)
  · rw [bool]
    exact bool_settled value
  · exact option_settled option value

theorem decodeParam_faithful_iff {type : String} (shaped : Shaped type) (value : Json) :
    Faithful type value (decodeParam type value) ↔ ¬∃ d, Misread type value d := by
  constructor
  · intro faithful misread
    obtain ⟨d, misread⟩ := misread
    rw [decodeParam_misread misread] at faithful
    exact misread_unfaithful misread faithful
  · exact (shaped_settled shaped value).resolve_right

theorem params_each {R : NamedValue → DecodedParam → Prop} (log : EventLog)
    (each : ∀ p : NamedValue, R p ⟨p.name, p.type, decodeParam p.type p.value⟩) :
    List.Forall₂ R log.params (Event.ofLog log).params :=
  List.forall₂_map_right_iff.mpr (List.forall₂_same.mpr fun p _ => each p)

/-- A parameter of an integer type is decoded just if it reads as one and stays as it came
otherwise. So it is with the constructors of `Bool` and `Option`, save for the values of another
shape that are misread; each of these becomes what `Misread` gives. -/
theorem shapes_respected_iff (log : EventLog) :
    List.Forall₂ (fun (p : NamedValue) (q : DecodedParam) => q.name = p.name ∧ q.type = p.type ∧
      (Shaped p.type → (Faithful p.type p.value q.value ↔ ¬∃ d, Misread p.type p.value d) ∧
        ∀ d, Misread p.type p.value d → q.value = d)) log.params (Event.ofLog log).params := by
  refine params_each log fun p => ⟨rfl, rfl, ?_⟩
  intro shaped
  exact ⟨decodeParam_faithful_iff shaped p.value, fun d misread => decodeParam_misread misread⟩

def oddLog : EventLog where
  name := "Changed"
  address := "0xabc"
  params :=
    [⟨"flag", "Bool", .object [("constructor", .text "Maybe")]⟩,
      ⟨"limit", "Option Uint32", .object [("argtypes", .array [.text "Uint32"]),
        ("arguments", .array [.text "7"]), ("constructor", .text "Just")]⟩,
      ⟨"cap", "Option Uint32", .object [("argtypes", .array [.text "Uint32"]),
        ("arguments", .array [.text "abc"]), ("constructor", .text "Some")]⟩]

theorem odd_shapes_simplified : ¬∀ log : EventLog,
    List.Forall₂ (fun (p : NamedValue) (q : DecodedParam) =>
      Shaped p.type → Faithful p.type p.value q.value) log.params (Event.ofLog log).params := by
  intro faithful
  have first := (List.forall₂_cons.mp (faithful oddLog)).1 (.inr (.inl rfl))
  have misread : Misread "Bool" (.object [("constructor", .text "Maybe")]) (.bool false) :=
    .bool rfl (by decide) (by decide)
  exact misread_unfaithful misread first

/-- A type that neither is an integer type nor `Bool` nor `Option` has its values kept as they came
unless its text begins with `Option`; then those with a constructor are taken apart, except for one
that is not `None` and has no first argument. -/
theorem other_types_kept_iff (log : EventLog) :
    List.Forall₂ (fun (p : NamedValue) (q : DecodedParam) => q.name = p.name ∧ q.type = p.type ∧
      (¬Shaped p.type → (q.value = .json p.value ↔
        ¬("Option".toList <+: p.type.toList ∧ ∃ d, Unwrapped p.value d)) ∧
        ∀ d, "Option".toList <+: p.type.toList → Unwrapped p.value d → q.value = d))
      log.params (Event.ofLog log).params := by
  refine params_each log fun p => ⟨rfl, rfl, ?_⟩
  intro other
  obtain ⟨integer, others⟩ := not_or.mp other
  obtain ⟨bool, -⟩ := not_or.mp others
  have taken : ∀ d, "Option".toList <+: p.type.toList → Unwrapped p.value d →
      decodeParam p.type p.value = d := by
    intro d begins unwrapped
    rw [decodeParam_begins begins]
    exact decodeOption_unwrapped unwrapped
  refine ⟨?_, taken⟩
  constructor
  · intro kept both
    obtain ⟨begins, d, unwrapped⟩ := both
    exact unwrapped_ne unwrapped ((taken d begins unwrapped).symm.trans kept)
  · intro apart
    by_cases begins : "Option".toList <+: p.type.toList
    · have kept := decodeOption_kept fun d unwrapped => apart ⟨begins, d, unwrapped⟩
      exact (decodeParam_begins begins p.value).trans kept
    · exact decodeParam_other integer begins bool p.value

def feeLog : EventLog where
  name := "Changed"
  address := "0xabc"
  params :=
    [⟨"fee", "OptionalFee", .object [("argtypes", .array [.text "Uint128", .text "ByStr20"]),
      ("arguments", .array [.text "5", .text "0x12"]), ("constructor", .text "Fee")]⟩]

theorem lookalike_taken_apart : ¬∀ log : EventLog,
    List.Forall₂ (fun (p : NamedValue) (q : DecodedParam) =>
      ¬Shaped p.type → q.value = .json p.value) log.params (Event.ofLog log).params := by
  intro kept
  have unshaped : ¬Shaped "OptionalFee" := by
    unfold Shaped IsOption
    decide
  have first := (List.forall₂_cons.mp (kept feeLog)).1 unshaped
  have simplified : decodeParam "OptionalFee" (.object [("argtypes", .array [.text "Uint128",
      .text "ByStr20"]), ("arguments", .array [.text "5", .text "0x12"]),
      ("constructor", .text "Fee")]) = .unbounded 5 := by
    decide
  exact Decoded.noConfusion (simplified.symm.trans first)

end TypedContracts
