import TypedContracts.Proofs.Call.Arguments
import TypedContracts.Proofs.Json.Form

/-!
The value behind the arguments of a call. Meant is an object of declared members; a list of their
values, in declared order, is taken as well. Told apart by what the value holds, not by the steps
that read it.
-/
namespace TypedContracts.Call
open Json

inductive MemberReads {α : Type} (read : Json → Option α) : Option Json → Option α → Prop where
  | missing : MemberReads read none none
  | null : MemberReads read (some .null) none
  | value {j : Json} {a : α} (present : j ≠ .null) (reads : read j = some a) :
      MemberReads read (some j) (some a)

structure MembersRead (member : String → Option Json) (o : Overrides) : Prop where
  amount : MemberReads amount? (member "amount") o.amount
  gasPrice : MemberReads amount? (member "gasPrice") o.gasPrice
  gasLimit : MemberReads word64? (member "gasLimit") o.gasLimit
  nonce : MemberReads word64? (member "nonce") o.nonce
  sender : MemberReads asText? (member "pubKey") o.sender
  version : MemberReads word32? (member "version") o.version

inductive FromObject : Json → Overrides → Prop where
  | intro {members : List (String × Json)} {o : Overrides}
      (declared : ∀ m ∈ members, m.1 ∈ Overrides.keys) (once : (members.map (·.1)).Nodup)
      (read : MembersRead (fun key => members.lookup key) o) : FromObject (.object members) o

inductive FromList : Json → Overrides → Prop where
  | intro {items : List Json} {o : Overrides} (fits : items.length ≤ Overrides.keys.length)
      (read : MembersRead (fun key => (Overrides.keys.zip items).lookup key) o) :
      FromList (.array items) o

/-- How arguments split when `Taken` says which values are overrides. -/
inductive SplitsAs (Taken : Json → Overrides → Prop) (target : String) (expected : Nat) :
    List Json → Result (List Json × Option Overrides) → Prop where
  | exact {args : List Json} (count : args.length = expected) :
      SplitsAs Taken target expected args (.ok (args, none))
  | overridden {args : List Json} {last : Json} {o : Overrides} (count : args.length = expected)
      (taken : Taken last o) : SplitsAs Taken target expected (args ++ [last]) (.ok (args, some o))
  | notOverrides {args : List Json} {last : Json} (count : args.length = expected)
      (refused : ∀ o, ¬Taken last o) :
      SplitsAs Taken target expected (args ++ [last]) (.error (.argumentShape .invalidOverrides))
  | miscounted {args : List Json} (notExact : args.length ≠ expected)
      (notOneMore : args.length ≠ expected + 1) :
      SplitsAs Taken target expected args (.error (.callShape target expected args.length))

def slotValue {α : Type} : Slot α → Option α
  | .given value => some value
  | .absent => none
  | .cut => none

theorem omissible_iff_reads {α : Type} {read : Json → Option α} {slot : Slot Json}
    {given : Option α} :
    slot.omissible Json.isNull read = some given ↔ MemberReads read (slotValue slot) given := by
  have nothing : some none = some given ↔ MemberReads read none given := by
    constructor
    · rintro ⟨⟩
      exact .missing
    · rintro ⟨⟩
      rfl
  cases slot with
  | absent => exact nothing
  | cut => exact nothing
  | given j =>
    by_cases null : j = .null
    · subst null
      constructor
      · rintro ⟨⟩
        exact .null
      · rintro (_ | _ | ⟨present, _⟩)
        · rfl
        · exact absurd rfl present
    · have notNull : j.isNull = false := by cases j <;> first | rfl | exact absurd rfl null
      simp only [Slot.omissible, Slot.optional, notNull, Bool.false_eq_true, if_false, slotValue,
        Option.map_eq_some_iff]
      constructor
      · rintro ⟨a, reads, rfl⟩
        exact .value null reads
      · rintro (_ | _ | ⟨_, reads⟩)
        · exact absurd rfl null
        · exact ⟨_, reads, rfl⟩

theorem overrides_of_slots {j : Json} {slots : List (Slot Json)} {member : String → Option Json}
    (record : strictSlots? Overrides.keys j = some slots)
    (values : slots.map slotValue = Overrides.keys.map member) (o : Overrides) :
    Overrides.ofJson? j = some o ↔ MembersRead member o := by
  have length : slots.length = 6 := by simpa [Overrides.keys] using congrArg List.length values
  obtain ⟨amount, gasPrice, gasLimit, nonce, sender, version, rfl⟩ :
      ∃ a b c d e f, slots = [a, b, c, d, e, f] := by
    match slots, length with
    | [a, b, c, d, e, f], _ => exact ⟨a, b, c, d, e, f, rfl⟩
  simp only [Overrides.keys, List.map_cons, List.map_nil, List.cons.injEq, and_true] at values
  obtain ⟨first, second, third, fourth, fifth, sixth⟩ := values
  unfold Overrides.ofJson?
  simp only [record, Option.bind_eq_bind, Option.bind_some, Option.bind_eq_some_iff,
    omissible_iff_reads, first, second, third, fourth, fifth, sixth, Option.some.injEq]
  constructor
  · rintro ⟨_, amount, _, gasPrice, _, gasLimit, _, nonce, _, sender, _, version, rfl⟩
    exact ⟨amount, gasPrice, gasLimit, nonce, sender, version⟩
  · rintro ⟨amount, gasPrice, gasLimit, nonce, sender, version⟩
    exact ⟨_, amount, _, gasPrice, _, gasLimit, _, nonce, _, sender, _, version, rfl⟩

theorem memberSlot_of_once {members : List (String × Json)}
    (once : (members.map (·.1)).Nodup) (key : String) :
    ∃ slot, memberSlot? members key = some slot ∧ slotValue slot = members.lookup key := by
  refine ⟨_, memberSlot_once once key, ?_⟩
  cases members.lookup key <;> rfl

theorem memberSlots_of_once {members : List (String × Json)}
    (once : (members.map (·.1)).Nodup) (keys : List String) :
    ∃ slots, memberSlots? keys members = some slots ∧
      slots.map slotValue = keys.map fun key => members.lookup key := by
  induction keys with
  | nil => exact ⟨[], rfl, rfl⟩
  | cons key keys ih =>
    obtain ⟨slot, first, value⟩ := memberSlot_of_once once key
    obtain ⟨slots, rest, values⟩ := ih
    unfold memberSlots? at rest ⊢
    exact ⟨slot :: slots, by simp [first, rest], by simp [value, values]⟩

theorem values_at_most_one {members : List (String × Json)} {keys : List String}
    {slots : List (Slot Json)} (record : memberSlots? keys members = some slots) {key : String}
    (declared : key ∈ keys) : (valuesOf key members).length ≤ 1 := by
  induction keys generalizing slots with
  | nil => cases declared
  | cons first keys ih =>
    simp only [memberSlots?, List.mapM_cons] at record ih
    obtain ⟨slot, here, record⟩ := Option.bind_eq_some_iff.mp record
    obtain ⟨later, rest, _⟩ := Option.bind_eq_some_iff.mp record
    rcases List.mem_cons.mp declared with rfl | declared
    · unfold memberSlot? at here
      split at here
      · rename_i none
        simp [none]
      · rename_i one
        simp [one]
      · cases here
    · exact ih rest declared

theorem once_of_memberSlots {members : List (String × Json)} {keys : List String}
    {slots : List (Slot Json)} (record : memberSlots? keys members = some slots)
    (declared : ∀ m ∈ members, m.1 ∈ keys) : (members.map (·.1)).Nodup := by
  refine List.nodup_iff_count_le_one.mpr fun key => ?_
  by_cases known : key ∈ keys
  · have count : (members.map (·.1)).count key = (valuesOf key members).length := by
      simp [valuesOf, List.count_eq_length_filter, List.filter_map, Function.comp_def]
    rw [count]
    exact values_at_most_one record known
  · have absent : key ∉ members.map (·.1) := by
      intro member
      obtain ⟨m, inMembers, rfl⟩ := List.mem_map.mp member
      exact known (declared m inMembers)
    rw [List.count_eq_zero_of_not_mem absent]
    exact Nat.zero_le 1

theorem overrides_of_object (members : List (String × Json)) (o : Overrides) :
    Overrides.ofJson? (.object members) = some o ↔ FromObject (.object members) o := by
  constructor
  · intro read
    obtain ⟨slots, record, _⟩ := Option.bind_eq_some_iff.mp read
    simp only [strictSlots?] at record
    split at record
    · rename_i only
      have declared : ∀ m ∈ members, m.1 ∈ Overrides.keys := by simpa [onlyKeys] using only
      have once := once_of_memberSlots record declared
      obtain ⟨slots, record, values⟩ := memberSlots_of_once once Overrides.keys
      have strict : strictSlots? Overrides.keys (.object members) = some slots := by
        rw [strictSlots?, if_pos only, record]
      exact .intro declared once ((overrides_of_slots strict values o).mp read)
    · cases record
  · rintro ⟨declared, once, read⟩
    have only : onlyKeys Overrides.keys members = true := by simpa [onlyKeys] using declared
    obtain ⟨slots, record, values⟩ := memberSlots_of_once once Overrides.keys
    have strict : strictSlots? Overrides.keys (.object members) = some slots := by
      rw [strictSlots?, if_pos only, record]
    exact (overrides_of_slots strict values o).mpr read

theorem zip_lookups {keys : List String} (once : keys.Nodup) {items : List Json}
    (fits : items.length ≤ keys.length) :
    (keys.map fun key => (keys.zip items).lookup key) =
      items.map some ++ List.replicate (keys.length - items.length) none := by
  induction keys generalizing items with
  | nil =>
    obtain rfl := List.length_eq_zero_iff.mp (Nat.le_zero.mp fits)
    rfl
  | cons key keys ih =>
    obtain ⟨fresh, once⟩ := List.nodup_cons.mp once
    cases items with
    | nil => simp [List.eq_replicate_iff]
    | cons item items =>
      have later : ∀ k ∈ keys,
          ((key, item) :: keys.zip items).lookup k = (keys.zip items).lookup k := by
        intro k member
        have different : (k == key) = false :=
          beq_eq_false_iff_ne.mpr fun same => fresh (same ▸ member)
        rw [List.lookup_cons, different]
      rw [List.map_cons, List.zip_cons_cons, List.map_congr_left later,
        ih once (Nat.le_of_succ_le_succ fits)]
      simp

theorem itemSlots_values {items : List Json} {keys : List String} (once : keys.Nodup)
    (fits : items.length ≤ keys.length) :
    ∃ slots, itemSlots? keys.length items = some slots ∧
      slots.map slotValue = keys.map fun key => (keys.zip items).lookup key := by
  refine ⟨_, by rw [itemSlots?, if_neg (Nat.not_lt.mpr fits)], ?_⟩
  rw [zip_lookups once fits]
  simp [slotValue, Function.comp_def]

theorem overrides_of_list (items : List Json) (o : Overrides) :
    Overrides.ofJson? (.array items) = some o ↔ FromList (.array items) o := by
  have once : Overrides.keys.Nodup := by decide
  by_cases fits : items.length ≤ Overrides.keys.length
  · obtain ⟨slots, record, values⟩ := itemSlots_values once fits
    have whole := overrides_of_slots (j := .array items) record values o
    exact ⟨fun read => .intro fits (whole.mp read), fun ⟨_, read⟩ => whole.mpr read⟩
  · have long : strictSlots? Overrides.keys (.array items) = none := by
      rw [strictSlots?, itemSlots?, if_pos (Nat.not_le.mp fits)]
    unfold Overrides.ofJson?
    rw [long]
    constructor
    · intro read
      cases read
    · rintro ⟨short, _⟩
      exact absurd short fits

/-- Nothing but an object or a list is read as overrides. -/
theorem overrides_read_iff (j : Json) (o : Overrides) :
    Overrides.ofJson? j = some o ↔ FromObject j o ∨ FromList j o := by
  cases j with
  | object members =>
    rw [overrides_of_object, or_iff_left]
    rintro ⟨⟩
  | array items =>
    rw [overrides_of_list, or_iff_right]
    rintro ⟨⟩
  | _ =>
    constructor
    · intro read
      cases read
    · intro taken
      rcases taken with taken | taken <;> cases taken

theorem split_of_read {Taken : Json → Overrides → Prop}
    (reads : ∀ j o, Overrides.ofJson? j = some o ↔ Taken j o) (target : String) (expected : Nat)
    (args : List Json) :
    SplitsAs Taken target expected args (splitArguments target expected args) := by
  unfold splitArguments
  split
  · rename_i count
    exact .exact count
  · rename_i notExact
    split
    · rename_i more
      rcases List.eq_nil_or_concat args with rfl | ⟨positional, last, rfl⟩
      · simp at more
      · have count : positional.length = expected := by simpa using more
        simp only [List.concat_eq_append, List.getLast?_concat, Option.bind_eq_bind,
          Option.bind_some, List.dropLast_concat]
        split
        · rename_i o read
          exact .overridden count ((reads last o).mp read)
        · rename_i unread
          refine .notOverrides count fun o taken => ?_
          cases unread.symm.trans ((reads last o).mpr taken)
    · rename_i notOneMore
      exact .miscounted notExact notOneMore

/-- Overrides are taken from an object of declared members or from a list of their values. An
argument too many is refused unless it is an object, except where it is such a list. -/
theorem trailing_value_split (target : String) (expected : Nat) (args : List Json) :
    SplitsAs (fun j o => FromObject j o ∨ FromList j o) target expected args
        (splitArguments target expected args) ∧
      (SplitsAs FromObject target expected args (splitArguments target expected args) ↔
        ¬∃ positional last o, args = positional ++ [last] ∧ positional.length = expected ∧
          FromList last o) := by
  have split := split_of_read overrides_read_iff target expected args
  refine ⟨split, ?_, ?_⟩
  · rintro meant ⟨positional, last, o, rfl, count, list⟩
    have taken : splitArguments target expected (positional ++ [last]) =
        .ok (positional, some o) :=
      splitArguments_ok_iff.mpr (.overridden count ((overrides_read_iff last o).mpr (.inr list)))
    rw [taken] at meant
    cases list
    generalize whole : positional ++ [Json.array _] = args at meant
    cases meant with
    | overridden _ object =>
      obtain ⟨_, same⟩ := List.append_inj_right' whole rfl
      cases object
  · intro noList
    generalize splitArguments target expected args = result at split
    cases split with
    | exact count => exact .exact count
    | overridden count taken =>
      rcases taken with object | list
      · exact .overridden count object
      · exact absurd ⟨_, _, _, rfl, count, list⟩ noList
    | notOverrides count refused =>
      exact .notOverrides count fun o object => refused o (.inl object)
    | miscounted notExact notOneMore => exact .miscounted notExact notOneMore

/-- One text in a list, left over behind the arguments, is an amount to be paid. -/
theorem surplus_list_pays :
    let args : List Json := [.text "0xabc", .array [.text "1000000"]]
    let paid : Overrides := { Overrides.none with amount := some 1000000 }
    splitArguments "transfer" 1 args = .ok ([.text "0xabc"], some paid) ∧
      ¬SplitsAs FromObject "transfer" 1 args (splitArguments "transfer" 1 args) := by
  intro args paid
  have read : Overrides.ofJson? (.array [.text "1000000"]) = some paid := by decide
  have taken : splitArguments "transfer" 1 args = .ok ([.text "0xabc"], some paid) := by
    simp [splitArguments, args, read]
  refine ⟨taken, fun meant => ?_⟩
  rw [taken] at meant
  generalize whole : args = given at meant
  cases meant with
  | overridden _ object =>
    cases object
    simp [args] at whole

end TypedContracts.Call
