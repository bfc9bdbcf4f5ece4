import Mathlib
import TypedContracts.Wrapper.SnakeCase

/-!
The words of a name. A capital begins a word behind a small letter or a digit, and behind another
capital if a small letter follows. A name is parted into words there and nowhere else, which can be
done in one way only.
-/
namespace TypedContracts.Wrapper
open TypedContracts.Text

/-- A word begins between these two parts of a name. -/
inductive WordBegins : List Char → List Char → Prop where
  | behindSmall {before after : List Char} {p c : Char}
      (small : isLowercase p = true ∨ Digits.isDecimal p = true) (capital : isUppercase c = true) :
      WordBegins (before ++ [p]) (c :: after)
  | beforeSmall {before after : List Char} {p c n : Char} (another : isUppercase p = true)
      (capital : isUppercase c = true) (small : isLowercase n = true) :
      WordBegins (before ++ [p]) (c :: n :: after)

def Parted (text : List (List Char) → List Char) (words : List (List Char))
    (before after : List Char) : Prop :=
  ∃ first second, first ≠ [] ∧ second ≠ [] ∧ first ++ second = words ∧
    text first = before ∧ text second = after

/-- The words part a name where a word begins and nowhere else. -/
structure Worded (name : List Char) (words : List (List Char)) : Prop where
  whole : words.flatten = name
  present : [] ∉ words
  parted : ∀ before after,
    Parted List.flatten words before after ↔ before ++ after = name ∧ WordBegins before after

theorem wordBegins_iff (before after : List Char) : WordBegins before after ↔
    after.head?.any isUppercase = true ∧ beginsWord before.getLast? after.tail.head? = true := by
  constructor
  · intro begins
    cases begins with
    | behindSmall small capital =>
      rcases small with letter | digit
      · simp [beginsWord, letter, capital]
      · simp [beginsWord, digit, capital]
    | beforeSmall another capital small => simp [beginsWord, another, capital, small]
  · rintro ⟨capital, begins⟩
    cases after with
    | nil => simp at capital
    | cons c after =>
      cases last : before.getLast? with
      | none => simp [last, beginsWord] at begins
      | some p =>
        obtain ⟨front, rfl⟩ := List.getLast?_eq_some_iff.mp last
        have upper : isUppercase c = true := by simpa using capital
        simp only [last, beginsWord, List.tail_cons, Bool.or_eq_true, Bool.and_eq_true] at begins
        rcases begins with known | ⟨another, next⟩
        · exact .behindSmall known upper
        · obtain ⟨n, first, letter⟩ := (Option.any_eq_true _ _).mp next
          obtain ⟨rest, rfl⟩ := List.head?_eq_some_iff.mp first
          exact .beforeSmall another upper letter

theorem wordBegins_here (previous : Option Char) (c : Char) (rest : List Char) :
    WordBegins previous.toList (c :: rest) ↔
      isUppercase c = true ∧ beginsWord previous rest.head? = true := by
  rw [wordBegins_iff]
  cases previous <;> simp

instance (before after : List Char) : Decidable (WordBegins before after) :=
  decidable_of_iff' _ (wordBegins_iff before after)

theorem wordBegins_last {before after : List Char} (begins : WordBegins before after) :
    ∃ front p, before = front ++ [p] ∧
      (isLowercase p = true ∨ Digits.isDecimal p = true ∨ isUppercase p = true) := by
  cases begins with
  | behindSmall known capital => exact ⟨_, _, rfl, known.imp_right .inl⟩
  | beforeSmall another capital known => exact ⟨_, _, rfl, .inr (.inr another)⟩

theorem wordBegins_first {before after : List Char} (begins : WordBegins before after) :
    ∃ c rest, after = c :: rest ∧ isUppercase c = true := by
  cases begins with
  | behindSmall known capital => exact ⟨_, _, rfl, capital⟩
  | beforeSmall another capital known => exact ⟨_, _, rfl, capital⟩

theorem wordBegins_some {before after : List Char} (begins : WordBegins before after) :
    before ≠ [] := by
  obtain ⟨front, p, rfl, _⟩ := wordBegins_last begins
  simp

theorem wordBegins_cons (c : Char) {before after : List Char} (some : before ≠ []) :
    WordBegins (c :: before) after ↔ WordBegins before after := by
  obtain ⟨d, ds, rfl⟩ := List.exists_cons_of_ne_nil some
  rw [wordBegins_iff, wordBegins_iff, List.getLast?_cons_cons]

def wordsOf : List Char → List (List Char)
  | [] => []
  | c :: rest =>
    match wordsOf rest with
    | [] => [[c]]
    | word :: words =>
      if WordBegins [c] rest then [c] :: word :: words else (c :: word) :: words

theorem wordsOf_cons {c d : Char} {rest word : List Char} {words : List (List Char)}
    (later : wordsOf (d :: rest) = word :: words) : wordsOf (c :: d :: rest) =
      if WordBegins [c] (d :: rest) then [c] :: word :: words else (c :: word) :: words := by
  rw [wordsOf, later]

theorem wordsOf_some (c : Char) (rest : List Char) :
    ∃ word words, wordsOf (c :: rest) = word :: words := by
  rw [wordsOf]
  split
  · exact ⟨_, _, rfl⟩
  · split <;> exact ⟨_, _, rfl⟩

theorem parted_single (text : List (List Char) → List Char) (word before after : List Char) :
    ¬Parted text [word] before after := by
  rintro ⟨first, second, some, more, whole, _⟩
  rcases List.append_eq_singleton_iff.mp whole with ⟨none, _⟩ | ⟨_, none⟩
  · exact some none
  · exact more none

theorem parted_cons (word next before after : List Char) (words : List (List Char)) :
    Parted List.flatten (word :: next :: words) before after ↔
      before = word ∧ after = (next :: words).flatten ∨
        ∃ front, before = word ++ front ∧ Parted List.flatten (next :: words) front after := by
  constructor
  · rintro ⟨first, second, some, more, whole, rfl, rfl⟩
    obtain ⟨w, first, rfl⟩ := List.exists_cons_of_ne_nil some
    obtain ⟨rfl, rest⟩ := List.cons.inj whole
    cases first with
    | nil => exact .inl ⟨by simp, congrArg List.flatten rest⟩
    | cons v first => exact .inr ⟨_, rfl, _, _, by simp, more, rest, rfl, rfl⟩
  · rintro (⟨rfl, rfl⟩ | ⟨front, rfl, first, second, some, more, whole, rfl, rfl⟩)
    · exact ⟨[_], next :: words, by simp, by simp, rfl, by simp, rfl⟩
    · exact ⟨word :: first, second, by simp, more, by simp [whole], rfl, rfl⟩

theorem parted_some {words : List (List Char)} {before after : List Char} (present : [] ∉ words)
    (parted : Parted List.flatten words before after) : before ≠ [] := by
  obtain ⟨first, second, some, _, rfl, rfl, _⟩ := parted
  obtain ⟨word, first, rfl⟩ := List.exists_cons_of_ne_nil some
  intro none
  have empty : word = [] := (List.append_eq_nil_iff.mp none).1
  exact present (by simp [empty])

theorem parted_longer (c : Char) (word before after : List Char) (words : List (List Char)) :
    Parted List.flatten ((c :: word) :: words) before after ↔
      ∃ front, before = c :: front ∧ Parted List.flatten (word :: words) front after := by
  cases words with
  | nil =>
    refine iff_of_false (parted_single _ _ _ _) ?_
    rintro ⟨front, _, parted⟩
    exact parted_single _ _ _ _ parted
  | cons next words =>
    simp only [parted_cons, List.cons_append]
    constructor
    · rintro (⟨rfl, rfl⟩ | ⟨front, rfl, parted⟩)
      · exact ⟨word, rfl, .inl ⟨rfl, rfl⟩⟩
      · exact ⟨word ++ front, rfl, .inr ⟨front, rfl, parted⟩⟩
    · rintro ⟨_, rfl, ⟨rfl, rfl⟩ | ⟨front, rfl, parted⟩⟩
      · exact .inl ⟨rfl, rfl⟩
      · exact .inr ⟨front, rfl, parted⟩

theorem begins_cons (c : Char) (rest before after : List Char) :
    before ++ after = c :: rest ∧ WordBegins before after ↔
      before = [c] ∧ after = rest ∧ WordBegins [c] rest ∨
        ∃ front, before = c :: front ∧ front ++ after = rest ∧ WordBegins front after := by
  constructor
  · rintro ⟨whole, begins⟩
    obtain ⟨d, front, rfl⟩ := List.exists_cons_of_ne_nil (wordBegins_some begins)
    obtain ⟨rfl, tail⟩ := List.cons.inj whole
    by_cases none : front = []
    · subst none
      exact .inl ⟨rfl, tail, tail ▸ begins⟩
    · exact .inr ⟨front, rfl, tail, (wordBegins_cons d none).mp begins⟩
  · rintro (⟨rfl, rfl, begins⟩ | ⟨front, rfl, rfl, begins⟩)
    · exact ⟨rfl, begins⟩
    · exact ⟨rfl, (wordBegins_cons c (wordBegins_some begins)).mpr begins⟩

theorem worded_behind_first {c : Char} {rest word : List Char} {words : List (List Char)}
    (begins : WordBegins [c] rest) :
    Worded (c :: rest) ([c] :: word :: words) ↔ Worded rest (word :: words) := by
  constructor
  · rintro ⟨whole, present, parted⟩
    have present : [] ∉ word :: words := fun empty => present (List.mem_cons_of_mem _ empty)
    refine ⟨(List.cons.inj whole).2, present, fun before after => ?_⟩
    by_cases none : before = []
    · refine iff_of_false (fun parted => parted_some present parted none) ?_
      exact fun later => wordBegins_some later.2 none
    · have here := parted (c :: before) after
      rw [parted_cons, begins_cons] at here
      simpa [none] using here
  · rintro ⟨whole, present, parted⟩
    refine ⟨congrArg (c :: ·) whole, by simpa using present, ?_⟩
    intro before after
    rw [parted_cons, begins_cons]
    simp [parted, whole, begins]

theorem worded_longer {c : Char} {rest word : List Char} {words : List (List Char)}
    (some : word ≠ []) (inside : ¬WordBegins [c] rest) :
    Worded (c :: rest) ((c :: word) :: words) ↔ Worded rest (word :: words) := by
  constructor
  · rintro ⟨whole, present, parted⟩
    refine ⟨(List.cons.inj whole).2, ?_, ?_⟩
    · simpa [some.symm] using present
    · intro before after
      have here := parted (c :: before) after
      rw [parted_longer, begins_cons] at here
      simpa [inside] using here
  · rintro ⟨whole, present, parted⟩
    refine ⟨congrArg (c :: ·) whole, by simpa [some.symm] using present, ?_⟩
    intro before after
    rw [parted_longer, begins_cons]
    simp [parted, inside]

theorem first_word_iff {c d : Char} {rest word : List Char} {words : List (List Char)}
    (worded : Worded (c :: d :: rest) ((c :: word) :: words)) :
    word = [] ↔ WordBegins [c] (d :: rest) := by
  have here := worded.parted [c] (d :: rest)
  rw [parted_longer] at here
  simp only [List.cons.injEq, true_and, List.cons_append, List.nil_append] at here
  rw [← here]
  have tail : word ++ words.flatten = d :: rest := (List.cons.inj worded.whole).2
  constructor
  · rintro rfl
    have more : words ≠ [] := by
      rintro rfl
      simp at tail
    exact ⟨[], rfl, [[]], words, by simp, more, rfl, rfl, tail⟩
  · rintro ⟨_, rfl, first, second, some, _, whole, none, _⟩
    obtain ⟨w, first, rfl⟩ := List.exists_cons_of_ne_nil some
    obtain ⟨rfl, _⟩ := List.cons.inj whole
    exact (List.append_eq_nil_iff.mp none).1

theorem worded_starts {c : Char} {rest : List Char} {words : List (List Char)}
    (worded : Worded (c :: rest) words) : ∃ word later, words = (c :: word) :: later := by
  have whole := worded.whole
  cases words with
  | nil => simp at whole
  | cons first later =>
    cases first with
    | nil => exact absurd List.mem_cons_self worded.present
    | cons d word =>
      obtain ⟨rfl, _⟩ := List.cons.inj whole
      exact ⟨word, later, rfl⟩

theorem worded_cons_iff (c d : Char) (rest : List Char) (words : List (List Char)) :
    Worded (c :: d :: rest) words ↔ ∃ word later, Worded (d :: rest) (word :: later) ∧
      words = if WordBegins [c] (d :: rest) then [c] :: word :: later
        else (c :: word) :: later := by
  constructor
  · intro worded
    obtain ⟨word, later, rfl⟩ := worded_starts worded
    have single := first_word_iff worded
    by_cases begins : WordBegins [c] (d :: rest)
    · obtain rfl := single.mpr begins
      have whole := (List.cons.inj worded.whole).2
      cases later with
      | nil => simp at whole
      | cons next later =>
        exact ⟨next, later, (worded_behind_first begins).mp worded, by rw [if_pos begins]⟩
    · have some : word ≠ [] := fun none => begins (single.mp none)
      exact ⟨word, later, (worded_longer some begins).mp worded, by rw [if_neg begins]⟩
  · rintro ⟨word, later, worded, rfl⟩
    split
    · rename_i begins
      exact (worded_behind_first begins).mpr worded
    · rename_i inside
      have some : word ≠ [] := fun none => worded.present (by simp [none])
      exact (worded_longer some inside).mpr worded

theorem no_words {words : List (List Char)} (present : [] ∉ words) (nothing : words.flatten = []) :
    words = [] := by
  cases words with
  | nil => rfl
  | cons word words =>
    have empty : word = [] := (List.append_eq_nil_iff.mp nothing).1
    exact absurd (by simp [empty]) present

theorem worded_nil_iff (words : List (List Char)) : Worded [] words ↔ words = [] := by
  constructor
  · intro worded
    exact no_words worded.present worded.whole
  · rintro rfl
    refine ⟨rfl, by simp, fun before after => iff_of_false ?_ ?_⟩
    · rintro ⟨first, second, some, _, none, _⟩
      exact some (List.append_eq_nil_iff.mp none).1
    · rintro ⟨none, begins⟩
      exact wordBegins_some begins (List.append_eq_nil_iff.mp none).1

theorem worded_single_iff (c : Char) (words : List (List Char)) :
    Worded [c] words ↔ words = [[c]] := by
  constructor
  · intro worded
    obtain ⟨word, later, rfl⟩ := worded_starts worded
    have nothing : word ++ later.flatten = [] := (List.cons.inj worded.whole).2
    obtain ⟨rfl, nothing⟩ := List.append_eq_nil_iff.mp nothing
    have present : [] ∉ later := fun empty => worded.present (List.mem_cons_of_mem _ empty)
    rw [no_words present nothing]
  · rintro rfl
    refine ⟨rfl, by simp, fun before after => iff_of_false (parted_single _ _ _ _) ?_⟩
    rintro ⟨whole, begins⟩
    obtain ⟨front, p, rfl, _⟩ := wordBegins_last begins
    obtain ⟨d, rest, rfl, _⟩ := wordBegins_first begins
    have lengths := congrArg List.length whole
    simp only [List.length_append, List.length_cons, List.length_nil] at lengths
    omega

/-- A name has words in one way only. -/
theorem worded_iff (name : List Char) (words : List (List Char)) :
    Worded name words ↔ words = wordsOf name := by
  induction name generalizing words with
  | nil => exact worded_nil_iff words
  | cons c rest ih =>
    cases rest with
    | nil => exact worded_single_iff c words
    | cons d rest =>
      obtain ⟨first, others, later⟩ := wordsOf_some d rest
      rw [worded_cons_iff, wordsOf_cons later]
      simp [ih, later]

end TypedContracts.Wrapper
