import Mathlib
import TypedContracts.Value.Decoded

/-!
When two values are the same. Without the sign of zeros, JSON values are the same just if they are
equal, and without the width of integers so are decoded values; sameness is therefore an
equivalence.
-/
namespace TypedContracts

def Binary64.unsigned (x : Binary64) : Binary64 := if x.isZero then .zero false else x

theorem Binary64.sameValue_iff (x y : Binary64) :
    x.sameValue y = true ↔ x.unsigned = y.unsigned := by
  have zero : (Binary64.zero false).isZero = true := rfl
  simp only [sameValue, unsigned, Bool.or_eq_true, beq_iff_eq, Bool.and_eq_true]
  constructor
  · rintro (rfl | ⟨first, second⟩)
    · rfl
    · rw [if_pos first, if_pos second]
  · intro same
    by_cases first : x.isZero = true <;> by_cases second : y.isZero = true
    · exact .inr ⟨first, second⟩
    · rw [if_pos first, if_neg second] at same
      exact absurd (same ▸ zero) second
    · rw [if_neg first, if_pos second] at same
      exact absurd (same ▸ zero) first
    · rw [if_neg first, if_neg second] at same
      exact .inl same

namespace Json

mutual
def unsigned : Json → Json
  | .binary x => .binary x.unsigned
  | .array items => .array (unsignedItems items)
  | .object members => .object (unsignedMembers members)
  | other => other
def unsignedItems : List Json → List Json
  | [] => []
  | item :: rest => unsigned item :: unsignedItems rest
def unsignedMembers : List (String × Json) → List (String × Json)
  | [] => []
  | (key, value) :: rest => (key, unsigned value) :: unsignedMembers rest
end

mutual
theorem same_iff : (x y : Json) → (x.same y = true ↔ x.unsigned = y.unsigned)
  | .binary x, y => by cases y <;> simp [same, unsigned, Binary64.sameValue_iff]
  | .array xs, y => by
    cases y with
    | array ys => simp [same, unsigned, sameItems_iff xs ys]
    | _ => simp [same, unsigned]
  | .object xs, y => by
    cases y with
    | object ys => simp [same, unsigned, sameMembers_iff xs ys]
    | _ => simp [same, unsigned]
  | .null, y => by cases y <;> simp [same, unsigned]
  | .bool x, y => by cases y <;> simp [same, unsigned]
  | .integer x, y => by cases y <;> simp [same, unsigned]
  | .text x, y => by cases y <;> simp [same, unsigned]
theorem sameItems_iff : (xs ys : List Json) →
    (sameItems xs ys = true ↔ unsignedItems xs = unsignedItems ys)
  | [], ys => by cases ys <;> simp [sameItems, unsignedItems]
  | x :: xs, ys => by
    cases ys with
    | nil => simp [sameItems, unsignedItems]
    | cons y ys => simp [sameItems, unsignedItems, same_iff x y, sameItems_iff xs ys]
theorem sameMembers_iff : (xs ys : List (String × Json)) →
    (sameMembers xs ys = true ↔ unsignedMembers xs = unsignedMembers ys)
  | [], ys => by cases ys <;> simp [sameMembers, unsignedMembers]
  | (key, x) :: xs, ys => by
    cases ys with
    | nil => simp [sameMembers, unsignedMembers]
    | cons m ys =>
      simp [sameMembers, unsignedMembers, same_iff x m.2, sameMembers_iff xs ys, and_assoc]
end

end Json

namespace Decoded

/-- An integer without its width, JSON without the sign of zeros. -/
def plain : Decoded → Decoded
  | .machine n => .unbounded n
  | .json value => .json value.unsigned
  | .unbounded n => .unbounded n
  | .bool b => .bool b
  | .null => .null

theorem same_iff (a b : Decoded) : a.same b = true ↔ a.plain = b.plain := by
  cases a <;> cases b <;> simp [same, integer?, plain, Json.same_iff]

theorem same_equivalence : Equivalence fun a b : Decoded => a.same b = true := by
  have kernel : (fun a b : Decoded => a.same b = true) = fun a b => a.plain = b.plain := by
    funext a b
    exact propext (same_iff a b)
  rw [kernel]
  exact eq_equivalence.comap plain

theorem integers_same_iff {a b : Decoded} {m n : Int} (first : a.integer? = some m)
    (second : b.integer? = some n) : a.same b = true ↔ m = n := by
  simp [same, first, second]

end Decoded
end TypedContracts
