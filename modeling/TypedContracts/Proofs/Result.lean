import Mathlib
import TypedContracts.Error

/-!
Results in sequence. A row of steps succeeds exactly when each does and gives their values in order.
-/
namespace TypedContracts.Result
variable {α β : Type}

theorem bind_ok_iff {m : Result α} {k : α → Result β} {b : β} :
    (m >>= k) = .ok b ↔ ∃ a, m = .ok a ∧ k a = .ok b := by
  cases m with
  | error e => simp [bind, Except.bind]
  | ok a => simp [bind, Except.bind]

theorem map_ok_iff {m : Result α} {f : α → β} {b : β} :
    m.map f = .ok b ↔ ∃ a, m = .ok a ∧ f a = b := by
  cases m with
  | error e => simp [Except.map]
  | ok a => simp [Except.map]

theorem pure_ok_iff {a b : α} : (pure a : Result α) = .ok b ↔ b = a :=
  ⟨fun same => (Except.ok.inj same).symm, fun same => congrArg Except.ok same.symm⟩

theorem ofOption_ok_iff {e : Error} {o : Option α} {a : α} :
    ofOption e o = .ok a ↔ o = some a := by
  cases o <;> simp [ofOption]

theorem toOption_some_iff {m : Result α} {a : α} : m.toOption = some a ↔ m = .ok a := by
  cases m <;> simp [Except.toOption]

theorem mapM_ok_iff {f : α → Result β} {xs : List α} {ys : List β} :
    xs.mapM f = .ok ys ↔ List.Forall₂ (fun x y => f x = .ok y) xs ys := by
  induction xs generalizing ys with
  | nil => cases ys <;> simp [pure, Except.pure]
  | cons x xs ih =>
    rw [List.mapM_cons, bind_ok_iff]
    simp only [bind_ok_iff, ih]
    constructor
    · rintro ⟨y, first, rest, later, eq⟩
      obtain rfl := Except.ok.inj eq
      exact .cons first later
    · rintro (_ | ⟨first, later⟩)
      exact ⟨_, first, _, later, rfl⟩

/-- Every step succeeds, or one is the first that does not. -/
theorem all_or_first (f : α → Result β) (xs : List α) :
    (∀ x ∈ xs, ∃ b, f x = .ok b) ∨
      ∃ before bad behind fault, xs = before ++ bad :: behind ∧
        (∀ x ∈ before, ∃ b, f x = .ok b) ∧ f bad = .error fault := by
  induction xs with
  | nil => exact .inl (List.forall_mem_nil _)
  | cons first xs ih =>
    cases own : f first with
    | error fault => exact .inr ⟨[], first, xs, fault, rfl, List.forall_mem_nil _, own⟩
    | ok b =>
      rcases ih with all | ⟨before, bad, behind, fault, rfl, fine, failed⟩
      · exact .inl (List.forall_mem_cons.mpr ⟨⟨b, own⟩, all⟩)
      · exact .inr ⟨first :: before, bad, behind, fault, rfl,
          List.forall_mem_cons.mpr ⟨⟨b, own⟩, fine⟩, failed⟩

theorem forall₂_member {R : α → β → Prop} {xs : List α} {ys : List β} (each : List.Forall₂ R xs ys)
    {y : β} (member : y ∈ ys) : ∃ x ∈ xs, R x y := by
  induction each with
  | nil => cases member
  | @cons x z xs ys first rest ih =>
    rcases List.mem_cons.mp member with rfl | later
    · exact ⟨x, List.mem_cons_self, first⟩
    · obtain ⟨w, inRest, here⟩ := ih later
      exact ⟨w, List.mem_cons_of_mem x inRest, here⟩

end TypedContracts.Result
