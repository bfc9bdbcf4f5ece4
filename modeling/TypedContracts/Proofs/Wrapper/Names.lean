import Mathlib
import TypedContracts.Wrapper.Source

/-!
Names in a wrapper. A name that is made of letters, digits and underscores becomes such a name
without capitals; it is never a keyword unless it has the raw mark, and the mark alone never tells
two names apart.
-/
namespace TypedContracts.Text

/-- Beyond ASCII every character counts as a letter. -/
def isLetter (c : Char) : Bool := c.isAlpha || decide (0x80 ≤ c.toNat)

def isWordChar (c : Char) : Bool := isLetter c || c.isDigit || c == '_'

theorem isUpper_iff_code (c : Char) : c.isUpper = true ↔ 0x41 ≤ c.toNat ∧ c.toNat ≤ 0x5a := by
  simp only [Char.isUpper, ge_iff_le, decide_eq_true_eq, UInt32.le_iff_toNat_le]
  rfl

theorem isLetter_iff_code (c : Char) : isLetter c = true ↔
    0x41 ≤ c.toNat ∧ c.toNat ≤ 0x5a ∨ 0x61 ≤ c.toNat ∧ c.toNat ≤ 0x7a ∨ 0x80 ≤ c.toNat := by
  simp only [isLetter, Char.isAlpha, Char.isUpper, Char.isLower, ge_iff_le, Bool.or_eq_true,
    Bool.and_eq_true, decide_eq_true_eq, UInt32.le_iff_toNat_le, or_assoc]
  rfl

theorem ascii_forall {P : Char → Prop} (each : ∀ n < 0x80, P (Char.ofNat n)) {c : Char}
    (ascii : c.toNat < 0x80) : P c := by
  have here := each c.toNat ascii
  rwa [Char.ofNat_toNat] at here

theorem shifts_land : ∀ s ∈ lowerShifts,
    0x80 ≤ s.1.first + s.2 ∧ s.1.last + s.2 < 0xd800 ∨
      0xe000 ≤ s.1.first + s.2 ∧ s.1.last + s.2 < 0x110000 ∨
      0x61 ≤ s.1.first + s.2 ∧ s.1.last + s.2 ≤ 0x7a := by
  decide +kernel

theorem letter_of_code {n : Nat}
    (lands : 0x80 ≤ n ∧ n < 0xd800 ∨ 0xe000 ≤ n ∧ n < 0x110000 ∨ 0x61 ≤ n ∧ n ≤ 0x7a) :
    isLetter (Char.ofNat n) = true ∧ (Char.ofNat n).isUpper = false := by
  have code : (Char.ofNat n).toNat = n := by
    have valid : n.isValidChar := by
      unfold Nat.isValidChar
      omega
    rw [Char.toNat_ofNat, if_pos valid]
  rw [isLetter_iff_code, ← Bool.not_eq_true, isUpper_iff_code, code]
  omega

theorem letter_beyond {c : Char} (beyond : 0x80 ≤ c.toNat) :
    isLetter c = true ∧ c.isUpper = false := by
  rw [isLetter_iff_code, ← Bool.not_eq_true, isUpper_iff_code]
  omega

/-- A letter in lower case is letters, none of them a capital. -/
theorem lower_letter {c x : Char} (letter : isLetter c = true) (member : x ∈ lower c) :
    isLetter x = true ∧ x.isUpper = false := by
  unfold lower at member
  split at member
  · rename_i ascii
    obtain rfl := List.mem_singleton.mp member
    have small : isLetter c = true → isLetter c.toLower = true ∧ c.toLower.isUpper = false :=
      ascii_forall (P := fun c => isLetter c = true →
        isLetter c.toLower = true ∧ c.toLower.isUpper = false) (by decide) ascii
    exact small letter
  · rename_i beyond
    split at member
    · rcases List.mem_cons.mp member with rfl | later
      · decide
      · obtain rfl := List.mem_singleton.mp later
        decide
    · split at member
      · rename_i s found
        obtain rfl := List.mem_singleton.mp member
        have inRun := List.find?_some found
        simp only [Run.has, Bool.and_eq_true, decide_eq_true_eq] at inRun
        have lands := shifts_land s (List.mem_of_find?_eq_some found)
        exact letter_of_code (by omega)
      · obtain rfl := List.mem_singleton.mp member
        exact letter_beyond (Nat.le_of_not_lt beyond)

theorem isUppercase_ascii {c : Char} (ascii : c.toNat < 0x80) : isUppercase c = c.isUpper :=
  ascii_forall (P := fun c => isUppercase c = c.isUpper) (by decide) ascii

theorem isLetter_of_isUppercase {c : Char} (upper : isUppercase c = true) :
    isLetter c = true := by
  by_cases ascii : c.toNat < 0x80
  · rw [isUppercase_ascii ascii, isUpper_iff_code] at upper
    rw [isLetter_iff_code]
    omega
  · exact (letter_beyond (Nat.le_of_not_lt ascii)).1

theorem isUpper_of_not_isUppercase {c : Char} (lower : isUppercase c = false) :
    c.isUpper = false := by
  by_cases ascii : c.toNat < 0x80
  · rwa [← isUppercase_ascii ascii]
  · exact (letter_beyond (Nat.le_of_not_lt ascii)).2

end TypedContracts.Text

namespace TypedContracts.Wrapper
open TypedContracts.Text

/-- A letter or underscore, then letters, digits and underscores. -/
def IsName (name : String) : Prop :=
  ∃ first rest, name.toList = first :: rest ∧ (isLetter first = true ∨ first = '_') ∧
    ∀ c ∈ rest, isWordChar c = true

instance (name : String) : Decidable (IsName name) :=
  decidable_of_iff ((name.toList.head?.any fun c => isLetter c || c == '_') &&
      name.toList.tail.all isWordChar) (by
    unfold IsName
    cases name.toList with
    | nil => simp
    | cons first rest => simp)

def Lowered (cs : List Char) : Prop := ∀ c ∈ cs, isWordChar c = true ∧ c.isUpper = false

instance (cs : List Char) : Decidable (Lowered cs) :=
  decidable_of_iff (cs.all fun c => isWordChar c && !c.isUpper) (by simp [Lowered])

theorem isName_word {name : String} (named : IsName name) :
    ∀ c ∈ name.toList, isWordChar c = true := by
  obtain ⟨first, rest, text, start, tail⟩ := named
  intro c member
  rw [text] at member
  rcases List.mem_cons.mp member with rfl | later
  · rcases start with letter | rfl
    · simp [isWordChar, letter]
    · decide
  · exact tail c later

theorem lowered_append {cs ds : List Char} (first : Lowered cs) (second : Lowered ds) :
    Lowered (cs ++ ds) := by
  intro c member
  rcases List.mem_append.mp member with before | after
  · exact first c before
  · exact second c after

theorem lower_lowered {c : Char} (upper : isUppercase c = true) : Lowered (lower c) := by
  intro x member
  obtain ⟨letter, small⟩ := lower_letter (isLetter_of_isUppercase upper) member
  exact ⟨by simp [isWordChar, letter], small⟩

theorem snakeFrom_lowered (previous : Option Char) {cs : List Char}
    (word : ∀ c ∈ cs, isWordChar c = true) : Lowered (snakeFrom previous cs) := by
  induction cs generalizing previous with
  | nil => simp [snakeFrom, Lowered]
  | cons c cs ih =>
    have tail := ih (some c) fun d member => word d (List.mem_cons_of_mem c member)
    refine lowered_append ?_ tail
    split
    · rename_i upper
      split
      · have underscore : Lowered ['_'] := by
          decide
        exact lowered_append underscore (lower_lowered upper)
      · exact lower_lowered upper
    · rename_i lower
      have here := word c List.mem_cons_self
      have small := isUpper_of_not_isUppercase (Bool.eq_false_iff.mpr lower)
      simp [Lowered, here, small]

theorem snakeCase_lowered {name : String} (named : IsName name) :
    Lowered (snakeCase name).toList := by
  rw [snakeCase, String.toList_ofList]
  exact snakeFrom_lowered none (isName_word named)

def unmarked (name : String) : String :=
  match name.toList with
  | 'r' :: '#' :: rest => String.ofList rest
  | _ => name

/-- Either of word characters and no keyword, or a keyword behind the raw mark. -/
inductive Settled : String → Prop where
  | plain {name : String} (lowered : Lowered name.toList) (free : name ∉ keywords) : Settled name
  | raw {keyword : String} (known : keyword ∈ keywords) (open_ : keyword ∉ reservedKeywords) :
      Settled (rawMark ++ keyword)

theorem keywords_lowered : ∀ k ∈ keywords, Lowered k.toList ∧ '_' ∉ k.toList := by
  decide

theorem lowered_no_mark {cs : List Char} (lowered : Lowered cs) : '#' ∉ cs := fun member =>
  absurd (lowered '#' member).1 (by decide)

theorem raw_text (name : String) : (rawMark ++ name).toList = 'r' :: '#' :: name.toList := by
  rw [String.toList_append]
  rfl

@[simp] theorem unmarked_raw (name : String) : unmarked (rawMark ++ name) = name := by
  have text := raw_text name
  unfold unmarked
  rw [text]
  exact String.ofList_toList

theorem unmarked_plain {name : String} (lowered : Lowered name.toList) : unmarked name = name := by
  unfold unmarked
  split
  · rename_i rest text
    exact absurd (by simp [text]) (lowered_no_mark lowered)
  · rfl

/-- The raw mark alone never tells two names apart. -/
theorem settled_injective {m n : String} (first : Settled m) (second : Settled n)
    (same : unmarked m = unmarked n) : m = n := by
  cases first with
  | plain lowered free =>
    rw [unmarked_plain lowered] at same
    cases second with
    | plain lowered' free' => rwa [unmarked_plain lowered'] at same
    | raw known _ =>
      rw [unmarked_raw] at same
      exact absurd (same ▸ known) free
  | raw known _ =>
    rw [unmarked_raw] at same
    cases second with
    | plain lowered free =>
      rw [unmarked_plain lowered] at same
      exact absurd (same ▸ known) free
    | raw known' _ =>
      rw [unmarked_raw] at same
      rw [same]

theorem fixedNames_settled : ∀ n ∈ fixedNames, Settled n := by
  have words : ∀ n ∈ fixedNames, Lowered n.toList ∧ n ∉ keywords := by
    decide
  intro n member
  exact .plain (words n member).1 (words n member).2

theorem reserved_closed : ∀ k ∈ reservedKeywords,
    Lowered (k ++ "_").toList ∧ k ++ "_" ∉ keywords ∧ k ++ "_" ∉ reservedKeywords := by
  decide

theorem identifier_settled {name : String} (named : IsName name) : Settled (identifier name) := by
  have lowered := snakeCase_lowered named
  unfold identifier
  dsimp only
  split
  · rename_i reserved
    obtain ⟨word, free, _⟩ := reserved_closed _ reserved
    exact .plain word free
  · rename_i open_
    split
    · rename_i known
      exact .raw known open_
    · rename_i free
      exact .plain lowered free

theorem withoutMarks_plain {cs : List Char} (plain : '#' ∉ cs) : withoutMarks cs = cs := by
  unfold withoutMarks
  split
  · simp at plain
  · rfl

theorem overridesName_eq {method : String} (settled : Settled method) :
    overridesName method = unmarked method ++ "_with" := by
  cases settled with
  | plain lowered free =>
    rw [overridesName, withoutMarks_plain (lowered_no_mark lowered), String.ofList_toList,
      unmarked_plain lowered]
  | raw known _ =>
    have plain := lowered_no_mark (keywords_lowered _ known).1
    rw [overridesName, raw_text, withoutMarks, withoutMarks_plain plain, String.ofList_toList,
      unmarked_raw]

theorem unmarked_lowered {name : String} (settled : Settled name) :
    Lowered (unmarked name).toList := by
  cases settled with
  | plain lowered free => rwa [unmarked_plain lowered]
  | raw known _ =>
    rw [unmarked_raw]
    exact (keywords_lowered _ known).1

theorem overridesName_lowered {method : String} (settled : Settled method) :
    Lowered (overridesName method).toList := by
  rw [overridesName_eq settled, String.toList_append]
  exact lowered_append (unmarked_lowered settled) (by decide)

theorem overridesName_settled {method : String} (settled : Settled method) :
    Settled (overridesName method) := by
  refine .plain (overridesName_lowered settled) fun known => ?_
  have underscore := (keywords_lowered _ known).2
  rw [overridesName_eq settled, String.toList_append] at underscore
  exact underscore (List.mem_append_right _ (by decide))

theorem withoutMarks_parity (cs : List Char) : (withoutMarks cs).length % 2 = cs.length % 2 := by
  fun_induction withoutMarks cs with
  | case1 rest ih =>
    rw [ih, List.length_cons, List.length_cons]
    omega
  | case2 => rfl

/-- The two names differ in length by an odd number. -/
theorem overridesName_ne (method : String) : overridesName method ≠ method := by
  intro same
  have text : method.toList = withoutMarks method.toList ++ "_with".toList := by
    rw [← String.toList_ofList (l := withoutMarks method.toList), ← String.toList_append]
    exact congrArg String.toList same.symm
  have five : "_with".toList.length = 5 := by decide
  have parity := withoutMarks_parity method.toList
  have lengths := congrArg List.length text
  rw [List.length_append, five] at lengths
  omega

end TypedContracts.Wrapper
