import TypedContracts.Proofs.Value.Same
import TypedContracts.Receipts.Events

/-!
Searching a transaction for events. The first event of a name is searched for each description by
itself, so neither the order of the descriptions nor their number of occurrences matters, and to ask
for less never turns a yes into a no.
-/
namespace TypedContracts

/-- What one step of asking for less does to a list of descriptions: it drops one of them, or a part
of one. -/
inductive Loosened : List ParamPattern → List ParamPattern → Prop where
  | dropped (before after : List ParamPattern) (want : ParamPattern) :
      Loosened (before ++ want :: after) (before ++ after)
  | nameless (before after : List ParamPattern) (want : ParamPattern) :
      Loosened (before ++ want :: after) (before ++ { want with name := none } :: after)
  | typeless (before after : List ParamPattern) (want : ParamPattern) :
      Loosened (before ++ want :: after) (before ++ { want with type := none } :: after)
  | valueless (before after : List ParamPattern) (want : ParamPattern) :
      Loosened (before ++ want :: after) (before ++ { want with value := none } :: after)

namespace ParamPattern

theorem fits_iff (want : ParamPattern) (p : DecodedParam) :
    want.fits p = true ↔ (∀ name ∈ want.name, name = p.name) ∧ (∀ type ∈ want.type, type = p.type) ∧
      ∀ value ∈ want.value, value.same p.value = true := by
  simp [fits, Option.all_eq_true, and_assoc]

structure Covers (want less : ParamPattern) : Prop where
  name : ∀ name ∈ less.name, name ∈ want.name
  type : ∀ type ∈ less.type, type ∈ want.type
  value : ∀ value ∈ less.value, value ∈ want.value

theorem Covers.fits {want less : ParamPattern} (covers : Covers want less) {p : DecodedParam}
    (fits : want.fits p = true) : less.fits p = true := by
  rw [fits_iff] at fits ⊢
  obtain ⟨name, type, value⟩ := fits
  exact ⟨fun n part => name n (covers.name n part), fun t part => type t (covers.type t part),
    fun v part => value v (covers.value v part)⟩

end ParamPattern

theorem covers_refl (want : ParamPattern) : want.Covers want :=
  ⟨fun _ => id, fun _ => id, fun _ => id⟩

theorem loosened_covered {wanted less : List ParamPattern} (loosened : Loosened wanted less) :
    ∀ other ∈ less, ∃ want ∈ wanted, want.Covers other := by
  have changed {before after : List ParamPattern} {want other : ParamPattern}
      (covers : want.Covers other) :
      ∀ p ∈ before ++ other :: after, ∃ q ∈ before ++ want :: after, q.Covers p := by
    intro p member
    rcases List.mem_append.mp member with early | late
    · exact ⟨p, List.mem_append_left _ early, covers_refl p⟩
    · rcases List.mem_cons.mp late with rfl | late
      · exact ⟨want, List.mem_append_right _ List.mem_cons_self, covers⟩
      · exact ⟨p, List.mem_append_right _ (List.mem_cons_of_mem _ late), covers_refl p⟩
  cases loosened with
  | dropped before after want =>
    intro p member
    have kept : p ∈ before ++ want :: after := by
      rcases List.mem_append.mp member with early | late
      · exact List.mem_append_left _ early
      · exact List.mem_append_right _ (List.mem_cons_of_mem _ late)
    exact ⟨p, kept, covers_refl p⟩
  | nameless before after want => exact changed ⟨by simp, fun _ => id, fun _ => id⟩
  | typeless before after want => exact changed ⟨fun _ => id, by simp, fun _ => id⟩
  | valueless before after want => exact changed ⟨fun _ => id, fun _ => id, by simp⟩

namespace Transaction
variable {t : Transaction} {name : String} {wanted : List ParamPattern}

theorem event_isSome (t : Transaction) (name : String) :
    (t.event? name).isSome = t.hasEvent name := by
  simp only [event?, hasEvent, Option.isSome_map, List.isSome_find?]

theorem event_first (t : Transaction) (name : String) :
    t.event? name = (t.events.map Event.ofLog).find? (·.name == name) := by
  rw [event?, List.find?_map]
  rfl

theorem hasEventWith_iff : t.hasEventWith name wanted = true ↔
    ∃ e, t.event? name = some e ∧ ∀ want ∈ wanted, ∃ p ∈ e.params, want.fits p = true := by
  unfold hasEventWith
  cases t.event? name <;> simp

theorem hasEventWith_parts : t.hasEventWith name wanted = true ↔
    ∃ e, t.event? name = some e ∧ ∀ want ∈ wanted, ∃ p ∈ e.params,
      (∀ n ∈ want.name, n = p.name) ∧ (∀ type ∈ want.type, type = p.type) ∧
        ∀ value ∈ want.value, value.same p.value = true := by
  simp only [hasEventWith_iff, ParamPattern.fits_iff]

theorem hasEventWith_nil (t : Transaction) (name : String) :
    t.hasEventWith name [] = t.hasEvent name := by
  rw [← event_isSome, hasEventWith]
  cases t.event? name <;> rfl

theorem hasEventWith_each (t : Transaction) (name : String) (wanted : List ParamPattern) :
    t.hasEventWith name wanted =
      (t.hasEvent name && wanted.all fun want => t.hasEventWith name [want]) := by
  rw [← event_isSome]
  unfold hasEventWith
  cases t.event? name <;> simp

theorem hasEventWith_members {others : List ParamPattern}
    (same : ∀ want, want ∈ wanted ↔ want ∈ others) :
    t.hasEventWith name wanted = t.hasEventWith name others := by
  rw [Bool.eq_iff_iff, hasEventWith_iff, hasEventWith_iff]
  simp only [same]

theorem hasEventWith_covered {less : List ParamPattern}
    (covered : ∀ other ∈ less, ∃ want ∈ wanted, want.Covers other)
    (has : t.hasEventWith name wanted = true) : t.hasEventWith name less = true := by
  obtain ⟨e, found, each⟩ := hasEventWith_iff.mp has
  refine hasEventWith_iff.mpr ⟨e, found, fun other member => ?_⟩
  obtain ⟨want, inWanted, covers⟩ := covered other member
  obtain ⟨p, param, fits⟩ := each want inWanted
  exact ⟨p, param, covers.fits fits⟩

theorem hasEventWith_loosened {less : List ParamPattern}
    (steps : Relation.ReflTransGen Loosened wanted less)
    (has : t.hasEventWith name wanted = true) : t.hasEventWith name less = true := by
  induction steps with
  | refl => exact has
  | tail _ step ih => exact hasEventWith_covered (loosened_covered step) ih

/-- The three ways to ask for an event agree, a description fits by name, type and value, descriptions
count each by itself, to ask for less keeps a yes, and values compare by what they stand for. -/
theorem event_matching_laws (t : Transaction) (name : String) :
    (t.event? name).isSome = t.hasEvent name ∧
    t.hasEventWith name [] = t.hasEvent name ∧
    t.event? name = (t.events.map Event.ofLog).find? (·.name == name) ∧
    (∀ wanted, t.hasEventWith name wanted = true ↔
      ∃ e, t.event? name = some e ∧ ∀ want ∈ wanted, ∃ p ∈ e.params,
        (∀ n ∈ want.name, n = p.name) ∧ (∀ type ∈ want.type, type = p.type) ∧
          ∀ value ∈ want.value, value.same p.value = true) ∧
    (∀ wanted others, (∀ want, want ∈ wanted ↔ want ∈ others) →
      t.hasEventWith name wanted = t.hasEventWith name others) ∧
    (∀ wanted, t.hasEventWith name wanted =
      (t.hasEvent name && wanted.all fun want => t.hasEventWith name [want])) ∧
    (∀ wanted less, Relation.ReflTransGen Loosened wanted less →
      t.hasEventWith name wanted = true → t.hasEventWith name less = true) ∧
    Equivalence (fun a b : Decoded => a.same b = true) ∧
    (∀ (a b : Decoded) (m n : Int), a.integer? = some m → b.integer? = some n →
      (a.same b = true ↔ m = n)) :=
  ⟨event_isSome t name, hasEventWith_nil t name, event_first t name, fun _ => hasEventWith_parts,
    fun _ _ => hasEventWith_members, hasEventWith_each t name, fun _ _ => hasEventWith_loosened,
    Decoded.same_equivalence, fun _ _ _ _ => Decoded.integers_same_iff⟩

end Transaction
end TypedContracts
