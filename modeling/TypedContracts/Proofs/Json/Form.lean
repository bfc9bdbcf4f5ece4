import TypedContracts.Proofs.Json.Printing

/-!
Records read from two kinds of value. When every part of one kind stands for a part of another, or
for nothing, whatever is read from it is also read from the other. Clipped JSON stands in this way
for the JSON it was printed from.
-/
namespace TypedContracts.Json
variable {α β γ δ : Type}

def Below (x y : Option γ) : Prop := ∀ value, x = some value → y = some value

theorem Below.refl (x : Option γ) : Below x x := fun _ here => here

theorem Below.none (y : Option γ) : Below Option.none y := fun _ here => nomatch here

theorem Below.bind {x y : Option γ} {k l : γ → Option δ} (first : Below x y)
    (rest : ∀ value, Below (k value) (l value)) : Below (x >>= k) (y >>= l) := by
  intro value here
  obtain ⟨middle, left, right⟩ := Option.bind_eq_some_iff.mp here
  exact Option.bind_eq_some_iff.mpr ⟨middle, first middle left, rest middle value right⟩

theorem Below.map {x y : Option γ} (first : Below x y) (f : γ → δ) : Below (x.map f) (y.map f) := by
  intro value here
  obtain ⟨middle, left, right⟩ := Option.map_eq_some_iff.mp here
  exact Option.map_eq_some_iff.mpr ⟨middle, first middle left, right⟩

theorem mapM_below {R : α → β → Prop} {xs : List α} {ys : List β} (related : List.Forall₂ R xs ys)
    {read : α → Option γ} {other : β → Option γ} (each : ∀ a b, R a b → Below (read a) (other b)) :
    Below (xs.mapM read) (ys.mapM other) := by
  induction related with
  | nil => exact .refl _
  | cons first rest ih =>
    simp only [List.mapM_cons]
    exact (each _ _ first).bind fun value => ih.bind fun values => .refl _

inductive Slot.Related (R : α → β → Prop) : Slot α → Slot β → Prop where
  | given {a : α} {b : β} (value : R a b) : Slot.Related R (.given a) (.given b)
  | absent : Slot.Related R .absent .absent
  | cut : Slot.Related R .cut .cut

namespace Slot
variable {R : α → β → Prop} {s : Slot α} {t : Slot β} {read : α → Option γ} {other : β → Option γ}

theorem required_below (related : Related R s t) (each : ∀ a b, R a b → Below (read a) (other b)) :
    Below (s.required read) (t.required other) := by
  cases related with
  | given value => exact each _ _ value
  | absent => exact .none _
  | cut => exact .none _

theorem orDefault_below (related : Related R s t) (default : γ)
    (each : ∀ a b, R a b → Below (read a) (other b)) :
    Below (s.orDefault default read) (t.orDefault default other) := by
  cases related with
  | given value => exact each _ _ value
  | absent => exact .refl _
  | cut => exact .refl _

theorem optional_below {isNull : α → Bool} {otherNull : β → Bool} (related : Related R s t)
    (null : ∀ a b, R a b → isNull a = otherNull b)
    (each : ∀ a b, R a b → Below (read a) (other b)) :
    Below (s.optional isNull read) (t.optional otherNull other) := by
  cases related with
  | given value =>
    simp only [optional, null _ _ value]
    split
    · exact .refl _
    · exact (each _ _ value).map some
  | absent => exact .refl _
  | cut => exact .refl _

theorem omissible_below {isNull : α → Bool} {otherNull : β → Bool} (related : Related R s t)
    (null : ∀ a b, R a b → isNull a = otherNull b)
    (each : ∀ a b, R a b → Below (read a) (other b)) :
    Below (s.omissible isNull read) (t.omissible otherNull other) := by
  cases related with
  | given value => exact optional_below (.given value) null each
  | absent => exact .refl _
  | cut => exact .refl _

end Slot

def MemberRelated (R : α → β → Prop) (m : String × α) (n : String × β) : Prop :=
  m.1 = n.1 ∧ R m.2 n.2

theorem valuesOf_related {R : α → β → Prop} {ms : List (String × α)} {ns : List (String × β)}
    (related : List.Forall₂ (MemberRelated R) ms ns) (key : String) :
    List.Forall₂ R (valuesOf key ms) (valuesOf key ns) := by
  induction related with
  | nil => exact .nil
  | @cons m n ms ns first rest ih =>
    obtain ⟨same, value⟩ := first
    unfold valuesOf at ih ⊢
    by_cases here : n.1 == key
    · simp only [List.filter_cons, same, here, if_true, List.map_cons]
      exact .cons value ih
    · simpa [List.filter_cons, same, here, -List.forall₂_map_left_iff, -List.forall₂_map_right_iff] using ih

theorem memberSlot_related {R : α → β → Prop} {ms : List (String × α)} {ns : List (String × β)}
    (related : List.Forall₂ (MemberRelated R) ms ns) (key : String) {slot : Slot α}
    (here : memberSlot? ms key = some slot) :
    ∃ other, memberSlot? ns key = some other ∧ Slot.Related R slot other := by
  have values := valuesOf_related related key
  unfold memberSlot? at here ⊢
  generalize valuesOf key ms = xs at here values
  generalize valuesOf key ns = ys at values
  cases values with
  | nil =>
    cases here
    exact ⟨_, rfl, .absent⟩
  | cons value rest =>
    cases rest with
    | nil =>
      cases here
      exact ⟨_, rfl, .given value⟩
    | cons _ _ => cases here

theorem memberSlots_related {R : α → β → Prop} {ms : List (String × α)} {ns : List (String × β)}
    (related : List.Forall₂ (MemberRelated R) ms ns) (keys : List String) {slots : List (Slot α)}
    (here : memberSlots? keys ms = some slots) :
    ∃ others, memberSlots? keys ns = some others ∧ List.Forall₂ (Slot.Related R) slots others := by
  induction keys generalizing slots with
  | nil =>
    cases here
    exact ⟨[], rfl, .nil⟩
  | cons key keys ih =>
    simp only [memberSlots?, List.mapM_cons] at here ih ⊢
    obtain ⟨slot, first, here⟩ := Option.bind_eq_some_iff.mp here
    obtain ⟨later, rest, eq⟩ := Option.bind_eq_some_iff.mp here
    obtain ⟨other, otherFirst, one⟩ := memberSlot_related related key first
    obtain ⟨others, otherRest, many⟩ := ih rest
    cases eq
    exact ⟨other :: others, by simp [otherFirst, otherRest], .cons one many⟩

theorem itemSlots_related {R : α → β → Prop} {xs : List α} {ys : List β}
    (related : List.Forall₂ R xs ys) (count : Nat) {slots : List (Slot α)}
    (here : itemSlots? count xs = some slots) :
    ∃ others, itemSlots? count ys = some others ∧ List.Forall₂ (Slot.Related R) slots others := by
  have length := related.length_eq
  unfold itemSlots? at here ⊢
  rw [length] at here
  split at here
  · cases here
  · rename_i fits
    cases here
    have given : List.Forall₂ (Slot.Related R) (xs.map .given) (ys.map .given) :=
      List.rel_map (fun _ _ value => .given value) related
    have cut : ∀ missing, List.Forall₂ (Slot.Related R) (List.replicate missing .cut)
        (List.replicate missing .cut) := by
      intro missing
      induction missing with
      | zero => exact .nil
      | succ missing ih => exact .cons .cut ih
    exact ⟨_, by rw [if_neg fits], List.rel_append given (cut _)⟩

theorem valuesOf_member {members : List (String × α)} (distinct : (members.map (·.1)).Nodup)
    {m : String × α} (member : m ∈ members) : valuesOf m.1 members = [m.2] := by
  unfold valuesOf
  induction members with
  | nil => cases member
  | cons n members ih =>
    obtain ⟨fresh, rest⟩ := List.nodup_cons.mp distinct
    rcases List.mem_cons.mp member with rfl | later
    · have others : members.filter (fun n => n.1 == m.1) = [] := by
        refine List.filter_eq_nil_iff.mpr fun n inRest same => fresh ?_
        exact List.mem_map.mpr ⟨n, inRest, by simpa using same⟩
      simp [others]
    · have different : (n.1 == m.1) = false := by
        refine beq_eq_false_iff_ne.mpr fun same => fresh ?_
        exact List.mem_map.mpr ⟨m, later, same.symm⟩
      simpa [List.filter_cons, different] using ih rest later

theorem memberSlot_once {ms : List (String × α)} (once : (ms.map (·.1)).Nodup) (key : String) :
    memberSlot? ms key = some ((ms.lookup key).elim .absent .given) := by
  cases found : ms.lookup key with
  | none =>
    have absent : valuesOf key ms = [] := by
      have others := List.lookup_eq_none_iff.mp found
      rw [valuesOf, List.map_eq_nil_iff, List.filter_eq_nil_iff]
      intro m member same
      have different := others m member
      simp [eq_of_beq same] at different
    simp [memberSlot?, absent]
  | some value =>
    obtain ⟨before, after, rfl, _⟩ := List.lookup_eq_some_iff.mp found
    have alone := valuesOf_member once (m := (key, value)) (by simp)
    simp [memberSlot?, alone]

theorem memberSlots_exact {members : List (String × α)} (distinct : (members.map (·.1)).Nodup) :
    memberSlots? (members.map (·.1)) members = some (members.map fun m => .given m.2) := by
  have each : ∀ chosen : List (String × α), (∀ m ∈ chosen, m ∈ members) →
      (chosen.map (·.1)).mapM (memberSlot? members) =
        some (chosen.map fun m => Slot.given m.2) := by
    intro chosen inMembers
    induction chosen with
    | nil => rfl
    | cons m chosen ih =>
      have value := valuesOf_member distinct (inMembers m List.mem_cons_self)
      have rest := ih fun n later => inMembers n (List.mem_cons_of_mem m later)
      simp [List.mapM_cons, memberSlot?, value, rest]
  exact each members fun _ member => member

/-- Related values are of one kind, as far as the first has any. -/
structure Form.Refines (form : Form α) (other : Form β) (R : α → β → Prop) : Prop where
  members {a : α} {b : β} {ms : List (String × α)} (related : R a b)
    (here : form.members? a = some ms) :
    ∃ ns, other.members? b = some ns ∧ List.Forall₂ (MemberRelated R) ms ns
  items {a : α} {b : β} {xs : List α} (related : R a b) (here : form.items? a = some xs) :
    other.members? b = none ∧ ∃ ys, other.items? b = some ys ∧ List.Forall₂ R xs ys
  text {a : α} {b : β} (related : R a b) : Below (form.text? a) (other.text? b)
  isNull {a : α} {b : β} (related : R a b) : form.isNull a = other.isNull b
  value {a : α} {b : β} (related : R a b) : Below (form.value? a) (other.value? b)

namespace Form
variable {form : Form α} {other : Form β} {R : α → β → Prop} {a : α} {b : β}

theorem Refines.slots (refines : Refines form other R) (related : R a b) (keys : List String)
    {slots : List (Slot α)} (here : form.slots? keys a = some slots) :
    ∃ others, other.slots? keys b = some others ∧
      List.Forall₂ (Slot.Related R) slots others := by
  unfold slots? at here ⊢
  cases members : form.members? a with
  | some ms =>
    obtain ⟨ns, otherMembers, all⟩ := refines.members related members
    rw [members] at here
    rw [otherMembers]
    exact memberSlots_related all keys here
  | none =>
    rw [members] at here
    obtain ⟨xs, items, slots⟩ := Option.bind_eq_some_iff.mp here
    obtain ⟨none, ys, otherItems, all⟩ := refines.items related items
    rw [none, otherItems]
    exact itemSlots_related all keys.length slots

theorem Refines.record (refines : Refines form other R) (related : R a b) (keys : List String)
    {k : List (Slot α) → Option γ} {l : List (Slot β) → Option γ}
    (each : ∀ slots others, List.Forall₂ (Slot.Related R) slots others →
      Below (k slots) (l others)) :
    Below (form.slots? keys a >>= k) (other.slots? keys b >>= l) := by
  intro value here
  obtain ⟨slots, left, right⟩ := Option.bind_eq_some_iff.mp here
  obtain ⟨others, otherLeft, all⟩ := refines.slots related keys left
  exact Option.bind_eq_some_iff.mpr ⟨others, otherLeft, each slots others all value right⟩

theorem Refines.list (refines : Refines form other R) (related : R a b) {read : α → Option γ}
    {again : β → Option γ} (each : ∀ a b, R a b → Below (read a) (again b)) :
    Below (form.list? read a) (other.list? again b) := by
  intro value here
  obtain ⟨xs, items, values⟩ := Option.bind_eq_some_iff.mp here
  obtain ⟨_, ys, otherItems, all⟩ := refines.items related items
  exact Option.bind_eq_some_iff.mpr ⟨ys, otherItems, mapM_below all each value values⟩

end Form

theorem form_text (s : String) : form.text? (.text s) = some s := rfl

theorem form_isNull (j : Json) : form.isNull j = j.isNull := rfl

theorem form_value (j : Json) : form.value? j = some j := rfl

theorem form_list (read : Json → Option γ) (items : List Json) :
    form.list? read (.array items) = items.mapM read := rfl

theorem slots_of_object {members : List (String × Json)}
    (distinct : (members.map (·.1)).Nodup) :
    form.slots? (members.map (·.1)) (.object members) = some (members.map fun m => .given m.2) :=
  memberSlots_exact distinct

mutual
theorem clip_value (limit : Nat) : (j : Json) → ∀ (depth : Nat),
    Below (clip limit depth j).value? (some j)
  | .null | .bool _ | .integer _ | .binary _ | .text _ => by
    intro depth
    exact .refl _
  | .array items => by
    intro depth
    unfold clip
    split
    · exact (clipItems_values limit items (depth + 1)).map Json.array
    · exact .none _
  | .object members => by
    intro depth
    unfold clip
    split
    · exact (clipMembers_values limit members (depth + 1)).map Json.object
    · exact .none _
theorem clipItems_values (limit : Nat) : (items : List Json) → ∀ (depth : Nat),
    Below (Raw.itemValues? (clipItems limit depth items)) (some items)
  | [] => by
    intro depth
    exact .refl _
  | item :: rest => by
    intro depth
    exact (clip_value limit item depth).bind fun value =>
      (clipItems_values limit rest depth).bind fun values => .refl _
theorem clipMembers_values (limit : Nat) : (members : List (String × Json)) → ∀ (depth : Nat),
    Below (Raw.memberValues? (clipMembers limit depth members)) (some members)
  | [] => by
    intro depth
    exact .refl _
  | (key, value) :: rest => by
    intro depth
    exact (clip_value limit value depth).bind fun value =>
      (clipMembers_values limit rest depth).bind fun values => .refl _
end

def Clipped (limit : Nat) (r : Raw) (j : Json) : Prop := ∃ depth, r = clip limit depth j

theorem clipItems_map (limit depth : Nat) (items : List Json) :
    clipItems limit depth items = items.map (clip limit depth) := by
  induction items with
  | nil => rfl
  | cons item items ih => rw [clipItems, ih, List.map_cons]

theorem clipMembers_read (limit depth : Nat) (members : List (String × Json)) :
    (Raw.object (clipMembers limit depth members)).asObject? =
      some (members.map fun m => (m.1, clip limit depth m.2)) := by
  induction members with
  | nil => rfl
  | cons member members ih =>
    unfold Raw.asObject? at ih ⊢
    simp [clipMembers, ih]

theorem clipItems_clipped (limit depth : Nat) (items : List Json) :
    List.Forall₂ (Clipped limit) (clipItems limit depth items) items := by
  rw [clipItems_map, List.forall₂_map_left_iff]
  exact List.forall₂_same.mpr fun item _ => ⟨depth, rfl⟩

theorem clipMembers_clipped (limit depth : Nat) (members : List (String × Json)) :
    ∃ read, (Raw.object (clipMembers limit depth members)).asObject? = some read ∧
      List.Forall₂ (MemberRelated (Clipped limit)) read members := by
  refine ⟨_, clipMembers_read limit depth members, ?_⟩
  rw [List.forall₂_map_left_iff]
  exact List.forall₂_same.mpr fun member _ => ⟨rfl, depth, rfl⟩

theorem clipped_refines (limit : Nat) : Form.Refines Raw.form form (Clipped limit) where
  members := by
    rintro r j ms ⟨depth, rfl⟩ here
    cases j with
    | object members =>
      change (clip limit depth (.object members)).asObject? = some ms at here
      unfold clip at here
      split at here
      · obtain ⟨read, all, related⟩ := clipMembers_clipped limit (depth + 1) members
        cases all.symm.trans here
        exact ⟨members, rfl, related⟩
      · cases here
    | array items =>
      change (clip limit depth (.array items)).asObject? = some ms at here
      unfold clip at here
      split at here <;> cases here
    | _ => cases here
  items := by
    rintro r j xs ⟨depth, rfl⟩ here
    cases j with
    | array items =>
      change (clip limit depth (.array items)).asArray? = some xs at here
      unfold clip at here
      split at here
      · cases here
        exact ⟨rfl, items, rfl, clipItems_clipped limit (depth + 1) items⟩
      · cases here
    | object members =>
      change (clip limit depth (.object members)).asArray? = some xs at here
      unfold clip at here
      split at here <;> cases here
    | _ => cases here
  text := by
    rintro r j ⟨depth, rfl⟩
    cases j with
    | array items =>
      change Below (clip limit depth (.array items)).asText? none
      unfold clip
      split <;> exact .refl _
    | object members =>
      change Below (clip limit depth (.object members)).asText? none
      unfold clip
      split <;> exact .refl _
    | _ => exact .refl _
  isNull := by
    rintro r j ⟨depth, rfl⟩
    cases j with
    | array items =>
      change (clip limit depth (.array items)).isNull = false
      unfold clip
      split <;> rfl
    | object members =>
      change (clip limit depth (.object members)).isNull = false
      unfold clip
      split <;> rfl
    | _ => rfl
  value := by
    rintro r j ⟨depth, rfl⟩
    exact clip_value limit j depth

end TypedContracts.Json
