import Mathlib
import TypedContracts.Number.Digits

/-!
Decimal numerals. What is written in decimal digits is read back, with or without a sign that may
lead it.
-/
namespace TypedContracts

theorem isDecimal_of_isDigit {c : Char} (digit : c.isDigit = true) :
    Digits.isDecimal c = true := by
  simpa [Char.isDigit, Digits.isDecimal, Char.le_def] using digit

theorem decimal_digits (n : Nat) : ∀ c ∈ Digits.decimal n, Digits.isDecimal c = true :=
  fun _ member => isDecimal_of_isDigit (Nat.isDigit_of_mem_toDigits (by decide) (by decide) member)

theorem numeral_digits {cs : List Char} (digits : ∀ c ∈ cs, Digits.isDecimal c = true) (n : Nat) :
    cs.foldl (fun n d => n * 10 + Digits.value d) n = Nat.ofDigitChars 10 cs n := by
  induction cs generalizing n with
  | nil => rfl
  | cons c cs ih =>
    have digit := digits c List.mem_cons_self
    rw [List.foldl_cons, ih (fun d member => digits d (List.mem_cons_of_mem c member)),
      Nat.ofDigitChars_cons, Digits.value, if_pos digit, Nat.mul_comm]

theorem numeral_decimal (n : Nat) : Digits.numeral 10 (Digits.decimal n) = n := by
  rw [Digits.numeral, numeral_digits (decimal_digits n)]
  exact Nat.ofDigitChars_ten_toDigits

theorem decimal_injective : Function.Injective Digits.decimal :=
  Function.LeftInverse.injective numeral_decimal

theorem decimal_some_iff {cs : List Char} {n : Nat} : Digits.decimal? cs = some n ↔
    cs ≠ [] ∧ (∀ d ∈ cs, Digits.isDecimal d = true) ∧ n = Digits.numeral 10 cs := by
  simp only [Digits.decimal?, Digits.numeral?, Option.ite_none_left_eq_some, Bool.or_eq_true, List.isEmpty_iff,
    Bool.not_eq_true', not_or, Bool.not_eq_false, List.all_eq_true, Option.some.injEq, and_assoc]
  rw [eq_comm (a := n)]

theorem decimal_read (n : Nat) : Digits.decimal? (Digits.decimal n) = some n :=
  decimal_some_iff.mpr ⟨Nat.toDigits_ne_nil, decimal_digits n, (numeral_decimal n).symm⟩

theorem withoutPlus_digits {cs : List Char} (digits : ∀ d ∈ cs, Digits.isDecimal d = true) :
    Digits.withoutPlus cs = cs := by
  unfold Digits.withoutPlus
  split
  · exact absurd (digits '+' List.mem_cons_self) (by decide)
  · rfl

theorem withoutPlus_cases (cs : List Char) :
    cs = Digits.withoutPlus cs ∨ cs = '+' :: Digits.withoutPlus cs := by
  unfold Digits.withoutPlus
  split
  · exact .inr rfl
  · exact .inl rfl

theorem decimal_first {n : Nat} {c : Char} {cs : List Char} (whole : Digits.decimal n = c :: cs) :
    Digits.isDecimal c = true := by
  have digits := decimal_digits n
  rw [whole] at digits
  exact digits c List.mem_cons_self

theorem signed_digits (n : Nat) : Digits.signed (Digits.decimal n) = (false, Digits.decimal n) := by
  unfold Digits.signed
  split
  · rename_i whole
    exact absurd (decimal_first whole) (by decide)
  · rename_i whole
    exact absurd (decimal_first whole) (by decide)
  · rfl

theorem signed_decimal (n : Int) :
    Digits.signed (Digits.decimalInteger n) = (decide (n < 0), Digits.decimal n.natAbs) := by
  rw [Digits.decimalInteger]
  by_cases negative : n < 0
  · rw [if_pos negative, decide_eq_true negative]
    rfl
  · rw [if_neg negative, decide_eq_false negative, signed_digits]

theorem negated_magnitude (n : Int) : Digits.negated (decide (n < 0)) n.natAbs = n := by
  unfold Digits.negated
  by_cases negative : n < 0
  · rw [if_pos (decide_eq_true negative)]
    omega
  · rw [if_neg (by simpa using negative)]
    omega

end TypedContracts
