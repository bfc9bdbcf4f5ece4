import Mathlib
import TypedContracts.Json.Basic

/-!
Members sorted by key, of which no two have the same key. Insertion keeps them so, and two such rows
with the same members are equal.
-/
namespace TypedContracts.Json
variable {α : Type}

def Sorted (members : List (String × α)) : Prop := members.Pairwise fun m n => m.1 < n.1

theorem key_ne_of_lt {a b : String} (less : a < b) : a ≠ b := by
  rintro rfl
  exact String.lt_irrefl a less

theorem key_greater {a b : String} (notLess : ¬a < b) (other : a ≠ b) : b < a := by
  have trichotomous : Std.Trichotomous fun a b : String => a < b := inferInstance
  by_cases greater : b < a
  · exact greater
  · exact absurd (trichotomous.trichotomous a b notLess greater) other

theorem sorted_unique {members : List (String × α)} (sorted : Sorted members) {key : String}
    {v w : α} (first : (key, v) ∈ members) (second : (key, w) ∈ members) : v = w := by
  induction members with
  | nil => cases first
  | cons m members ih =>
    obtain ⟨less, rest⟩ := List.pairwise_cons.mp sorted
    rcases List.mem_cons.mp first with rfl | firstLater
    · rcases List.mem_cons.mp second with eq | secondLater
      · exact (Prod.mk.inj eq).2.symm
      · exact absurd (less _ secondLater) (String.lt_irrefl _)
    · rcases List.mem_cons.mp second with rfl | secondLater
      · exact absurd (less _ firstLater) (String.lt_irrefl _)
      · exact ih rest firstLater secondLater

theorem sorted_nodup {members : List (String × α)} (sorted : Sorted members) : members.Nodup := by
  refine List.Pairwise.imp ?_ sorted
  rintro m n less rfl
  exact String.lt_irrefl m.1 less

theorem sorted_ext {members others : List (String × α)} (sorted : Sorted members)
    (otherSorted : Sorted others) (same : ∀ m, m ∈ members ↔ m ∈ others) : members = others := by
  have permuted := (List.perm_ext_iff_of_nodup (sorted_nodup sorted) (sorted_nodup otherSorted)).mpr
    same
  refine List.Perm.eq_of_pairwise ?_ sorted otherSorted permuted
  intro m n _ _ less greater
  exact absurd greater (String.lt_asymm less)

theorem lookup_once {members : List (String × α)} (once : (members.map (·.1)).Nodup)
    (key : String) (value : α) :
    members.lookup key = some value ↔ (key, value) ∈ members := by
  induction members with
  | nil => simp
  | cons m members ih =>
    obtain ⟨k, v⟩ := m
    obtain ⟨fresh, rest⟩ := List.nodup_cons.mp once
    by_cases here : key = k
    · subst here
      have alone : (key, value) ∉ members := fun member =>
        fresh (List.mem_map.mpr ⟨_, member, rfl⟩)
      simp [alone, eq_comm]
    · have different : (key == k) = false := by simpa using here
      simp [List.lookup_cons, different, ih rest, here]

theorem lookup_perm {members others : List (String × α)} (once : (members.map (·.1)).Nodup)
    (order : others.Perm members) (key : String) : others.lookup key = members.lookup key := by
  have otherOnce : (others.map (·.1)).Nodup := (order.map _).nodup_iff.mpr once
  refine Option.ext fun value => ?_
  rw [lookup_once once, lookup_once otherOnce, order.mem_iff]

theorem sorted_keys_once {members : List (String × α)} (sorted : Sorted members) :
    (members.map (·.1)).Nodup :=
  List.pairwise_map.mpr (List.Pairwise.imp key_ne_of_lt sorted)

theorem mem_keys_iff {members : List (String × α)} {key : String} :
    key ∈ members.map (·.1) ↔ (members.lookup key).isSome := by
  rw [List.lookup_isSome_iff, List.mem_map]
  constructor
  · rintro ⟨m, member, rfl⟩
    exact ⟨m, member, beq_self_eq_true _⟩
  · rintro ⟨m, member, same⟩
    exact ⟨m, member, (beq_iff_eq.mp same).symm⟩

theorem lookup_iff_member {members : List (String × α)} (sorted : Sorted members) (key : String)
    (value : α) : members.lookup key = some value ↔ (key, value) ∈ members :=
  lookup_once (sorted_keys_once sorted) key value

theorem sorted_filter {members : List (String × α)} (sorted : Sorted members)
    (keep : String × α → Bool) : Sorted (members.filter keep) :=
  List.Pairwise.filter keep sorted

theorem member_of_insert {key : String} {value : α} {members : List (String × α)}
    {m : String × α} (member : m ∈ insertMember key value members) :
    m = (key, value) ∨ m ∈ members := by
  induction members with
  | nil => simpa [insertMember] using member
  | cons n members ih =>
    unfold insertMember at member
    split at member
    · simpa using member
    · split at member
      · simp only [List.mem_cons] at member ⊢
        rcases member with here | later
        · exact .inl here
        · exact .inr (.inr later)
      · rcases List.mem_cons.mp member with here | later
        · exact .inr (by simp [here])
        · rcases ih later with new | old
          · exact .inl new
          · exact .inr (List.mem_cons_of_mem n old)

theorem lookup_cons_if (key : String) (value : α) (members : List (String × α)) (k : String) :
    ((key, value) :: members).lookup k = if k = key then some value else members.lookup k := by
  by_cases here : k = key
  · simp [here]
  · have different : (k == key) = false := by simpa using here
    simp [List.lookup_cons, different, here]

theorem lookup_filter_keys (members : List (String × α)) (keep : String → Bool) (key : String) :
    (members.filter fun m => keep m.1).lookup key =
      if keep key then members.lookup key else none := by
  induction members with
  | nil => simp
  | cons m members ih =>
    obtain ⟨k, v⟩ := m
    rw [List.filter_cons]
    split
    · rename_i kept
      rw [lookup_cons_if, lookup_cons_if, ih]
      by_cases here : key = k
      · subst here
        simp [kept]
      · simp [here]
    · rename_i dropped
      rw [ih, lookup_cons_if]
      by_cases here : key = k
      · subst here
        simp [dropped]
      · simp [here]

theorem lookup_without (members : List (String × α)) (gone key : String) :
    (members.filter (·.1 != gone)).lookup key =
      if key = gone then none else members.lookup key := by
  rw [lookup_filter_keys members (· != gone)]
  by_cases here : key = gone <;> simp [here]

theorem lookup_mapped {β : Type} (f : α → β) (ms : List (String × α)) (key : String) :
    (ms.map fun m => (m.1, f m.2)).lookup key = (ms.lookup key).map f := by
  induction ms with
  | nil => rfl
  | cons m ms ih =>
    rw [List.map_cons, lookup_cons_if, lookup_cons_if, ih]
    split <;> rfl

theorem lookup_insertMember (key : String) (value : α) (members : List (String × α))
    (k : String) :
    (insertMember key value members).lookup k =
      if k = key then some value else members.lookup k := by
  induction members with
  | nil => exact lookup_cons_if key value [] k
  | cons m members ih =>
    obtain ⟨l, w⟩ := m
    unfold insertMember
    by_cases before : key < l
    · rw [if_pos before]
      exact lookup_cons_if key value _ k
    · rw [if_neg before]
      by_cases same : key = l
      · subst same
        rw [if_pos rfl, lookup_cons_if, lookup_cons_if]
        split <;> rfl
      · rw [if_neg same, lookup_cons_if, lookup_cons_if, ih]
        by_cases here : k = l
        · subst here
          rw [if_pos rfl, if_pos rfl, if_neg (Ne.symm same)]
        · rw [if_neg here, if_neg here]

theorem insertMember_sorted {key : String} {value : α} {members : List (String × α)}
    (sorted : Sorted members) : Sorted (insertMember key value members) := by
  induction members with
  | nil => exact List.pairwise_singleton _ _
  | cons m members ih =>
    obtain ⟨k, v⟩ := m
    obtain ⟨less, rest⟩ := List.pairwise_cons.mp sorted
    unfold insertMember
    by_cases before : key < k
    · rw [if_pos before]
      refine List.pairwise_cons.mpr ⟨fun m member => ?_, sorted⟩
      rcases List.mem_cons.mp member with rfl | later
      · exact before
      · exact String.lt_trans before (less m later)
    · rw [if_neg before]
      by_cases here : key = k
      · subst here
        rw [if_pos rfl]
        exact List.pairwise_cons.mpr ⟨less, rest⟩
      · rw [if_neg here]
        refine List.pairwise_cons.mpr ⟨fun m member => ?_, ih rest⟩
        rcases member_of_insert member with rfl | later
        · exact key_greater before here
        · exact less m later

theorem mem_insertMember {key : String} {value : α} {members : List (String × α)}
    (sorted : Sorted members) (k : String) (v : α) :
    (k, v) ∈ insertMember key value members ↔
      k = key ∧ v = value ∨ k ≠ key ∧ (k, v) ∈ members := by
  induction members with
  | nil => simp [insertMember]
  | cons m members ih =>
    obtain ⟨l, w⟩ := m
    obtain ⟨less, rest⟩ := List.pairwise_cons.mp sorted
    unfold insertMember
    by_cases before : key < l
    · have later : ∀ u, (key, u) ∉ (l, w) :: members := by
        intro u member
        rcases List.mem_cons.mp member with eq | member
        · exact key_ne_of_lt before (Prod.mk.inj eq).1
        · exact String.lt_irrefl key (String.lt_trans before (less _ member))
      rw [if_pos before, List.mem_cons, Prod.mk.injEq]
      refine or_congr_right ⟨fun member => ⟨?_, member⟩, fun both => both.2⟩
      rintro rfl
      exact later v member
    · rw [if_neg before]
      by_cases here : key = l
      · subst here
        have later : ∀ u, (key, u) ∉ members := fun u member =>
          String.lt_irrefl key (less _ member)
        by_cases same : k = key
        · subst same
          simp [later]
        · simp [same]
      · rw [if_neg here, List.mem_cons, ih rest, List.mem_cons, Prod.mk.injEq]
        by_cases same : k = key
        · subst same
          simp [here]
        · simp [same]

theorem insertMember_last {key : String} {value : α} {members : List (String × α)}
    (last : ∀ m ∈ members, m.1 < key) :
    insertMember key value members = members ++ [(key, value)] := by
  induction members with
  | nil => rfl
  | cons m members ih =>
    have first := last m List.mem_cons_self
    have rest := ih fun n member => last n (List.mem_cons_of_mem m member)
    unfold insertMember
    rw [if_neg (String.lt_asymm first), if_neg (key_ne_of_lt first).symm, rest, List.cons_append]

theorem insert_all_sorted {members : List (String × α)} (sorted : Sorted members) :
    members.foldl (fun done m => insertMember m.1 m.2 done) [] = members := by
  have from_done : ∀ rest done : List (String × α), Sorted (done ++ rest) →
      rest.foldl (fun done m => insertMember m.1 m.2 done) done = done ++ rest := by
    intro rest
    induction rest with
    | nil => intro done _; simp
    | cons m rest ih =>
      intro done whole
      have last : ∀ n ∈ done, n.1 < m.1 := by
        obtain ⟨_, _, across⟩ := List.pairwise_append.mp whole
        exact fun n member => across n member m List.mem_cons_self
      rw [List.foldl_cons, insertMember_last last, ih _ (by simpa using whole)]
      simp
  simpa using from_done members [] sorted

end TypedContracts.Json
