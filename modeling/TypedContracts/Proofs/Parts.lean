import Mathlib

/-!
Lists in parts. The first member that fails a test parts a list in one way only; and a list may be
split before its members are mapped or after, if the separators are told by what they are mapped to.
-/
namespace TypedContracts.Parts
variable {α β : Type} {p : α → Prop} {as bs cs ds : List α}

theorem parted_unique (first : ∀ a ∈ as, p a) (second : ∀ b ∈ bs, p b)
    (stop : ∀ c ∈ cs.head?, ¬p c) (halt : ∀ d ∈ ds.head?, ¬p d) (same : as ++ cs = bs ++ ds) :
    as = bs ∧ cs = ds := by
  have none {xs more ys : List α} (every : ∀ x ∈ xs ++ more, p x)
      (fails : ∀ y ∈ (more ++ ys).head?, ¬p y) : more = [] := by
    cases more with
    | nil => rfl
    | cons m more => exact absurd (every m (by simp)) (fails m (by simp))
  rcases List.append_eq_append_iff.mp same with ⟨more, rfl, rfl⟩ | ⟨more, rfl, rfl⟩
  · obtain rfl := none second stop
    simp
  · obtain rfl := none first halt
    simp

theorem splitOnP_map (f : α → β) (p : β → Bool) (xs : List α) :
    (xs.map f).splitOnP p = (xs.splitOnP fun x => p (f x)).map (List.map f) := by
  induction xs with
  | nil => simp
  | cons x xs ih =>
    rw [List.map_cons, List.splitOnP_cons_eq_if_modifyHead, List.splitOnP_cons_eq_if_modifyHead, ih]
    cases p (f x) with
    | true => simp
    | false =>
      obtain ⟨piece, rest, pieces⟩ :=
        List.exists_cons_of_ne_nil (List.splitOnP_ne_nil (fun x => p (f x)) xs)
      simp [pieces]

end TypedContracts.Parts
