import TypedContracts.Proofs.Json.Form

/-!
Depth of JSON. A value whose arrays and objects are nested no deeper than the reader allows comes
back whole, so whatever is read from the value is also read from its text.
-/
namespace TypedContracts.Json

mutual
def nesting : Json → Nat
  | .array items => itemsNesting items + 1
  | .object members => membersNesting members + 1
  | _ => 0
def itemsNesting : List Json → Nat
  | [] => 0
  | item :: rest => max (nesting item) (itemsNesting rest)
def membersNesting : List (String × Json) → Nat
  | [] => 0
  | (_, value) :: rest => max (nesting value) (membersNesting rest)
end

theorem clip_array {limit depth : Nat} {items : List Json}
    (fits : depth + (array items).nesting ≤ limit) :
    clip limit depth (.array items) = .array (clipItems limit (depth + 1) items) ∧
      depth + 1 + itemsNesting items ≤ limit := by
  rw [nesting] at fits
  rw [clip, if_pos (by omega)]
  exact ⟨rfl, by omega⟩

theorem clip_object {limit depth : Nat} {members : List (String × Json)}
    (fits : depth + (object members).nesting ≤ limit) :
    clip limit depth (.object members) = .object (clipMembers limit (depth + 1) members) ∧
      depth + 1 + membersNesting members ≤ limit := by
  rw [nesting] at fits
  rw [clip, if_pos (by omega)]
  exact ⟨rfl, by omega⟩

mutual
theorem clip_whole (limit : Nat) : (j : Json) → ∀ (depth : Nat), depth + j.nesting ≤ limit →
    (clip limit depth j).value? = some j
  | .null | .bool _ | .integer _ | .binary _ | .text _ => by
    intro depth _
    rfl
  | .array items => by
    intro depth fits
    obtain ⟨kept, inside⟩ := clip_array fits
    rw [kept, Raw.value?, clipItems_whole limit items (depth + 1) inside]
    rfl
  | .object members => by
    intro depth fits
    obtain ⟨kept, inside⟩ := clip_object fits
    rw [kept, Raw.value?, clipMembers_whole limit members (depth + 1) inside]
    rfl
theorem clipItems_whole (limit : Nat) : (items : List Json) → ∀ (depth : Nat),
    depth + itemsNesting items ≤ limit →
    Raw.itemValues? (clipItems limit depth items) = some items
  | [] => by
    intro depth _
    rfl
  | item :: rest => by
    intro depth fits
    rw [itemsNesting] at fits
    have first := clip_whole limit item depth (by omega)
    have others := clipItems_whole limit rest depth (by omega)
    simp [clipItems, Raw.itemValues?, first, others]
theorem clipMembers_whole (limit : Nat) : (members : List (String × Json)) → ∀ (depth : Nat),
    depth + membersNesting members ≤ limit →
    Raw.memberValues? (clipMembers limit depth members) = some members
  | [] => by
    intro depth _
    rfl
  | (key, value) :: rest => by
    intro depth fits
    rw [membersNesting] at fits
    have first := clip_whole limit value depth (by omega)
    have others := clipMembers_whole limit rest depth (by omega)
    simp [clipMembers, Raw.memberValues?, first, others]
end

mutual
theorem clip_fits (limit : Nat) : (j : Json) → ∀ (depth : Nat) (v : Json), depth ≤ limit →
    (clip limit depth j).value? = some v → depth + j.nesting ≤ limit
  | .null | .bool _ | .integer _ | .binary _ | .text _ => by
    intro _ _ inside _
    exact inside
  | .array items => by
    intro depth v inside here
    unfold clip at here
    split at here
    · obtain ⟨values, read, _⟩ := Option.map_eq_some_iff.mp here
      have deeper := clipItems_fits limit items _ _ (by omega) read
      rw [nesting]
      omega
    · cases here
  | .object members => by
    intro depth v inside here
    unfold clip at here
    split at here
    · obtain ⟨values, read, _⟩ := Option.map_eq_some_iff.mp here
      have deeper := clipMembers_fits limit members _ _ (by omega) read
      rw [nesting]
      omega
    · cases here
theorem clipItems_fits (limit : Nat) : (items : List Json) → ∀ (depth : Nat)
    (values : List Json), depth ≤ limit →
    Raw.itemValues? (clipItems limit depth items) = some values →
    depth + itemsNesting items ≤ limit
  | [] => by
    intro _ _ inside _
    exact inside
  | item :: rest => by
    intro depth values inside here
    obtain ⟨value, first, here⟩ := Option.bind_eq_some_iff.mp here
    obtain ⟨others, later, _⟩ := Option.bind_eq_some_iff.mp here
    have firstFits := clip_fits limit item _ _ inside first
    have restFits := clipItems_fits limit rest _ _ inside later
    rw [itemsNesting]
    omega
theorem clipMembers_fits (limit : Nat) : (members : List (String × Json)) → ∀ (depth : Nat)
    (values : List (String × Json)), depth ≤ limit →
    Raw.memberValues? (clipMembers limit depth members) = some values →
    depth + membersNesting members ≤ limit
  | [] => by
    intro _ _ inside _
    exact inside
  | (key, member) :: rest => by
    intro depth values inside here
    obtain ⟨value, first, here⟩ := Option.bind_eq_some_iff.mp here
    obtain ⟨others, later, _⟩ := Option.bind_eq_some_iff.mp here
    have firstFits := clip_fits limit member _ _ inside first
    have restFits := clipMembers_fits limit rest _ _ inside later
    rw [membersNesting]
    omega
end

/-- A value that is not nested too deep, and what is left of it at some depth. -/
def Whole (limit : Nat) (j : Json) (r : Raw) : Prop :=
  ∃ depth, depth + j.nesting ≤ limit ∧ r = clip limit depth j

theorem item_nesting {items : List Json} {item : Json} (member : item ∈ items) :
    item.nesting ≤ itemsNesting items := by
  induction items with
  | nil => cases member
  | cons first items ih =>
    rw [itemsNesting]
    rcases List.mem_cons.mp member with rfl | later
    · exact Nat.le_max_left _ _
    · exact Nat.le_trans (ih later) (Nat.le_max_right _ _)

theorem member_nesting {members : List (String × Json)} {m : String × Json}
    (member : m ∈ members) : m.2.nesting ≤ membersNesting members := by
  induction members with
  | nil => cases member
  | cons first members ih =>
    rw [membersNesting]
    rcases List.mem_cons.mp member with rfl | later
    · exact Nat.le_max_left _ _
    · exact Nat.le_trans (ih later) (Nat.le_max_right _ _)

theorem clipItems_related {limit depth : Nat} {items : List Json}
    (fits : depth + itemsNesting items ≤ limit) :
    List.Forall₂ (Whole limit) items (clipItems limit depth items) := by
  rw [clipItems_map, List.forall₂_map_right_iff]
  refine List.forall₂_same.mpr fun item member => ⟨depth, ?_, rfl⟩
  exact Nat.le_trans (Nat.add_le_add_left (item_nesting member) depth) fits

theorem clipMembers_related {limit depth : Nat} {members : List (String × Json)}
    (fits : depth + membersNesting members ≤ limit) :
    ∃ read, (Raw.object (clipMembers limit depth members)).asObject? = some read ∧
      List.Forall₂ (MemberRelated (Whole limit)) members read := by
  refine ⟨_, clipMembers_read limit depth members, ?_⟩
  rw [List.forall₂_map_right_iff]
  refine List.forall₂_same.mpr fun m member => ⟨rfl, depth, ?_, rfl⟩
  exact Nat.le_trans (Nat.add_le_add_left (member_nesting member) depth) fits

theorem whole_refines (limit : Nat) : Form.Refines form Raw.form (Whole limit) where
  members := by
    rintro j r ms ⟨depth, fits, rfl⟩ here
    cases j with
    | object members =>
      cases here
      obtain ⟨kept, inside⟩ := clip_object fits
      rw [kept]
      exact clipMembers_related inside
    | _ => cases here
  items := by
    rintro j r xs ⟨depth, fits, rfl⟩ here
    cases j with
    | array items =>
      cases here
      obtain ⟨kept, inside⟩ := clip_array fits
      rw [kept]
      exact ⟨rfl, _, rfl, clipItems_related inside⟩
    | _ => cases here
  text := by
    rintro j r ⟨depth, fits, rfl⟩ s here
    cases j with
    | text value => exact here
    | _ => cases here
  isNull := by
    rintro j r ⟨depth, fits, rfl⟩
    cases j with
    | array items =>
      rw [(clip_array fits).1]
      rfl
    | object members =>
      rw [(clip_object fits).1]
      rfl
    | _ => rfl
  value := by
    rintro j r ⟨depth, fits, rfl⟩ value here
    cases here
    exact clip_whole limit j depth fits

theorem whole_of_fits {limit : Nat} {j : Json} (fits : j.nesting ≤ limit) :
    Whole limit j (clip limit 0 j) := ⟨0, by omega, rfl⟩

/-- Text is read back faithfully exactly if nothing in it is nested too deep. -/
theorem parse_pretty_iff {j : Json} (numberless : Numberless j) :
    parse? j.pretty = some j ↔ j.nesting ≤ depthLimit := by
  rw [parse?, parseWithin?, parse_pretty depthLimit numberless]
  change (clip depthLimit 0 j).value? = some j ↔ _
  constructor
  · intro here
    have fits := clip_fits depthLimit j _ _ (Nat.zero_le _) here
    omega
  · intro fits
    exact clip_whole depthLimit j 0 (by omega)

section Printed
variable {γ : Type} {j : Json} {read : Raw → Option γ} {stored : Json → Option γ} {a b : γ}

theorem parsed_unique (numberless : Numberless j) (whole : stored j = some a)
    (below : Below (read (clip depthLimit 0 j)) (stored j))
    (here : (Raw.parse? j.pretty >>= read) = some b) : b = a := by
  rw [Raw.parse?, parse_pretty depthLimit numberless, Option.bind_eq_bind, Option.bind_some] at here
  exact (Option.some.inj (whole.symm.trans (below b here))).symm

theorem parsed_whole (numberless : Numberless j) (whole : stored j = some a)
    (below : Below (stored j) (read (clip depthLimit 0 j))) :
    (Raw.parse? j.pretty >>= read) = some a := by
  rw [Raw.parse?, parse_pretty depthLimit numberless]
  exact below a whole

end Printed

end TypedContracts.Json
