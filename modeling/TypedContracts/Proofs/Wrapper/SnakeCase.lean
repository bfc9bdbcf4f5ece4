import TypedContracts.Proofs.Text.Lines
import TypedContracts.Proofs.Wrapper.NameWords
import TypedContracts.Proofs.Wrapper.Names

/-!
Names in lower case. Such a name is the words of the name joined by underscores. The underscores of
the name stay in its words; one that joins two words has a letter or digit before it and a letter
behind it, so what has been written when a word begins never ends in an underscore.
-/
namespace TypedContracts.Wrapper
open TypedContracts.Text

def small (c : Char) : List Char := if isUppercase c then lower c else [c]

def Enclosed (before after : List Char) : Prop :=
  (∃ c ∈ before.getLast?, c ≠ '_') ∧ ∃ c ∈ after.head?, c ≠ '_'

theorem lower_ne_nil (c : Char) : lower c ≠ [] := by
  unfold lower
  split
  · simp
  · split
    · simp
    · split <;> simp

theorem small_ne_nil (c : Char) : small c ≠ [] := by
  unfold small
  split
  · exact lower_ne_nil c
  · simp

theorem small_no_underscore {c : Char}
    (known : isLowercase c = true ∨ Digits.isDecimal c = true ∨ isUppercase c = true) :
    '_' ∉ small c := by
  intro member
  unfold small at member
  split at member
  · rename_i upper
    have letter := (lower_letter (isLetter_of_isUppercase upper) member).1
    exact absurd letter (by decide)
  · obtain rfl := List.mem_singleton.mp member
    revert known
    decide

theorem snakeFrom_cons (previous : Option Char) (c : Char) (rest : List Char) :
    snakeFrom previous (c :: rest) =
      (if WordBegins previous.toList (c :: rest) then ['_'] else []) ++ small c ++
        snakeFrom (some c) rest := by
  rw [snakeFrom, small]
  simp only [wordBegins_here]
  by_cases upper : isUppercase c = true
  · by_cases begins : beginsWord previous rest.head? = true
    · simp [upper, begins]
    · simp [upper, begins]
  · simp [upper]

theorem mem_snakeFrom {x : Char} {previous : Option Char} {cs : List Char}
    (member : x ∈ snakeFrom previous cs) : x = '_' ∨ ∃ c ∈ cs, x ∈ small c := by
  induction cs generalizing previous with
  | nil => simp [snakeFrom] at member
  | cons c cs ih =>
    rw [snakeFrom_cons, List.append_assoc, List.mem_append, List.mem_append] at member
    rcases member with separator | here | later
    · split at separator
      · exact .inl (List.mem_singleton.mp separator)
      · simp at separator
    · exact .inr ⟨c, List.mem_cons_self, here⟩
    · rcases ih later with separator | ⟨d, among, found⟩
      · exact .inl separator
      · exact .inr ⟨d, List.mem_cons_of_mem c among, found⟩

theorem snakeFrom_letters (previous : Option Char) (cs : List Char) :
    (snakeFrom previous cs).filter (· != '_') = (cs.flatMap small).filter (· != '_') := by
  induction cs generalizing previous with
  | nil => rfl
  | cons c cs ih =>
    rw [snakeFrom_cons, List.flatMap_cons, List.filter_append, List.filter_append,
      List.filter_append, ih]
    split <;> simp

theorem snakeFrom_sublist (previous : Option Char) (cs : List Char) :
    (cs.flatMap small).Sublist (snakeFrom previous cs) := by
  induction cs generalizing previous with
  | nil => exact List.Sublist.refl []
  | cons c cs ih =>
    rw [snakeFrom_cons, List.flatMap_cons, List.append_assoc]
    exact ((ih (some c)).append_left (small c)).trans (List.sublist_append_right _ _)

theorem snakeFrom_without_capitals (previous : Option Char) {cs : List Char}
    (plain : ∀ c ∈ cs, isUppercase c = false) : snakeFrom previous cs = cs := by
  induction cs generalizing previous with
  | nil => rfl
  | cons c cs ih =>
    have here := plain c List.mem_cons_self
    have later := ih (some c) fun d member => plain d (List.mem_cons_of_mem c member)
    simp [snakeFrom, here, later]

/-- The text in lower case written onto what there is, with no underscore put behind another. -/
def writeSnake (out : List Char) (previous : Option Char) : List Char → List Char
  | [] => out
  | c :: rest =>
    let apart := isUppercase c && beginsWord previous rest.head? && out.getLast? != some '_'
    writeSnake ((if apart then out ++ ['_'] else out) ++ small c) (some c) rest

def EndsIn (previous : Option Char) (out : List Char) : Prop :=
  ∀ p ∈ previous, ∃ front, out = front ++ small p

theorem endsIn_no_underscore {previous : Option Char} {out after : List Char}
    (ends : EndsIn previous out) (begins : WordBegins previous.toList after) :
    out.getLast? ≠ some '_' := by
  obtain ⟨front, p, single, known⟩ := wordBegins_last begins
  have before : previous = some p := by
    cases previous with
    | none => simp at single
    | some q =>
      rw [Option.toList_some, List.singleton_eq_append_iff] at single
      simp_all
  obtain ⟨written, rfl⟩ := ends p before
  intro last
  rw [List.getLast?_append_of_ne_nil _ (small_ne_nil p)] at last
  exact small_no_underscore known (List.mem_of_getLast? last)

theorem writeSnake_append {out : List Char} {previous : Option Char} (ends : EndsIn previous out)
    (cs : List Char) : writeSnake out previous cs = out ++ snakeFrom previous cs := by
  induction cs generalizing out previous with
  | nil => simp [writeSnake, snakeFrom]
  | cons c cs ih =>
    have step (written : List Char) : EndsIn (some c) (written ++ small c) := by
      rintro _ ⟨⟩
      exact ⟨written, rfl⟩
    rw [writeSnake, ih (step _), snakeFrom_cons]
    by_cases begins : WordBegins previous.toList (c :: cs)
    · have free := endsIn_no_underscore ends begins
      obtain ⟨upper, word⟩ := (wordBegins_here previous c cs).mp begins
      simp [begins, upper, word, free]
    · have inside := begins
      rw [wordBegins_here, ← Bool.and_eq_true, Bool.not_eq_true] at inside
      simp [begins, inside]

/-- Looking out for an underscore that has been written makes no difference. -/
theorem writeSnake_eq (name : String) :
    String.ofList (writeSnake [] none name.toList) = snakeCase name := by
  have nothing : EndsIn none [] := by
    rintro _ ⟨⟩
  rw [writeSnake_append nothing, List.nil_append, snakeCase]

theorem snakeFrom_joined (c : Char) (rest : List Char) : small c ++ snakeFrom (some c) rest =
    joinWith ['_'] ((wordsOf (c :: rest)).map (List.flatMap small)) := by
  induction rest generalizing c with
  | nil => simp [wordsOf, snakeFrom, joinWith]
  | cons d rest ih =>
    obtain ⟨word, words, later⟩ := wordsOf_some d rest
    have tail := ih d
    rw [later, List.map_cons] at tail
    rw [snakeFrom_cons, Option.toList_some, List.append_assoc, tail, wordsOf_cons later]
    by_cases begins : WordBegins [c] (d :: rest)
    · simp [begins, joinWith]
    · simp [begins, joinWith_front]

theorem snakeCase_joined (name : String) : (snakeCase name).toList =
    joinWith ['_'] ((wordsOf name.toList).map (List.flatMap small)) := by
  rw [snakeCase, String.toList_ofList]
  cases name.toList with
  | nil => rfl
  | cons c rest =>
    have nothing : ¬WordBegins [] (c :: rest) := fun begins => wordBegins_some begins rfl
    rw [snakeFrom_cons, Option.toList_none, if_neg nothing, List.nil_append, snakeFrom_joined]

theorem small_present {words : List (List Char)} (present : [] ∉ words) :
    [] ∉ words.map (List.flatMap small) := by
  intro empty
  obtain ⟨word, member, nothing⟩ := List.mem_map.mp empty
  cases word with
  | nil => exact present member
  | cons c word => exact small_ne_nil c (List.append_eq_nil_iff.mp nothing).1

theorem small_flatten (words : List (List Char)) :
    (words.map (List.flatMap small)).flatten = words.flatten.flatMap small := by
  induction words with
  | nil => rfl
  | cons word words ih => simp [ih]

theorem joined_first {words : List (List Char)} {c : Char} {rest : List Char}
    (present : [] ∉ words) (whole : words.flatten = c :: rest) :
    (joinWith ['_'] (words.map (List.flatMap small))).head? = (small c).head? := by
  rw [joinWith_head (small_present present), small_flatten, whole, List.flatMap_cons,
    List.head?_append_of_ne_nil _ (small_ne_nil c)]

theorem joined_last {words : List (List Char)} {front : List Char} {p : Char}
    (present : [] ∉ words) (whole : words.flatten = front ++ [p]) :
    (joinWith ['_'] (words.map (List.flatMap small))).getLast? = (small p).getLast? := by
  rw [joinWith_last (small_present present), small_flatten, whole, List.flatMap_append,
    List.flatMap_singleton, List.getLast?_append_of_ne_nil _ (small_ne_nil p)]

theorem joint_enclosed {name : List Char} {words : List (List Char)} (worded : Worded name words)
    {before after : List Char}
    (joint : Parted (joinWith ['_']) (words.map (List.flatMap small)) before after) :
    Enclosed before after := by
  obtain ⟨_, _, some, more, whole, rfl, rfl⟩ := joint
  obtain ⟨first, second, rfl, rfl, rfl⟩ := List.map_eq_append_iff.mp whole.symm
  have here : Parted List.flatten (first ++ second) first.flatten second.flatten :=
    ⟨first, second, by simpa using some, by simpa using more, rfl, rfl, rfl⟩
  have begins := ((worded.parted _ _).mp here).2
  obtain ⟨leading, trailing⟩ : [] ∉ first ∧ [] ∉ second := by simpa using worded.present
  obtain ⟨front, p, before, known⟩ := wordBegins_last begins
  obtain ⟨c, rest, after, upper⟩ := wordBegins_first begins
  constructor
  · rw [joined_last leading before]
    have last := List.getLast?_eq_some_getLast (small_ne_nil p)
    exact ⟨_, last, fun same => small_no_underscore known (same ▸ List.getLast_mem _)⟩
  · rw [joined_first trailing after]
    have first := List.head?_eq_some_head (small_ne_nil c)
    have plain := small_no_underscore (.inr (.inr upper))
    exact ⟨_, first, fun same => plain (same ▸ List.head_mem _)⟩

theorem joined_at {words : List (List Char)} {before after : List Char}
    (joint : Parted (joinWith ['_']) words before after) :
    joinWith ['_'] words = before ++ '_' :: after := by
  obtain ⟨first, second, some, more, rfl, rfl, rfl⟩ := joint
  rw [joinWith_append some more, List.append_assoc, List.singleton_append]

theorem small_ascii {c : Char} (ascii : c.toNat < 0x80) : small c = [c.toLower] :=
  ascii_forall (P := fun c => small c = [c.toLower]) (by decide) ascii

theorem isUppercase_toLower {c : Char} (ascii : c.toNat < 0x80) : isUppercase c.toLower = false :=
  ascii_forall (P := fun c => isUppercase c.toLower = false) (by decide) ascii

theorem flatMap_small_ascii {cs : List Char} (ascii : ∀ c ∈ cs, c.toNat < 0x80) :
    cs.flatMap small = cs.map Char.toLower := by
  induction cs with
  | nil => rfl
  | cons c cs ih =>
    rw [List.flatMap_cons, small_ascii (ascii c List.mem_cons_self), List.map_cons,
      ih fun d member => ascii d (List.mem_cons_of_mem c member), List.singleton_append]

theorem snakeCase_no_capitals {name : String} (ascii : ∀ c ∈ name.toList, c.toNat < 0x80) :
    ∀ c ∈ (snakeCase name).toList, isUppercase c = false := by
  intro x member
  rw [snakeCase, String.toList_ofList] at member
  rcases mem_snakeFrom member with rfl | ⟨c, among, found⟩
  · decide
  · rw [small_ascii (ascii c among), List.mem_singleton] at found
    rw [found]
    exact isUppercase_toLower (ascii c among)

/-- A name in ASCII loses its capitals and nothing else, and each of its words but the first gets an
underscore. -/
theorem snakeCase_in_words (name : String) (ascii : ∀ c ∈ name.toList, c.toNat < 0x80) :
    (∀ c ∈ (snakeCase name).toList, isUppercase c = false) ∧
    (snakeCase name).toList.filter (· != '_') = name.toLower.toList.filter (· != '_') ∧
    name.toLower.toList.Sublist (snakeCase name).toList ∧
    (∃ words, (∀ ws, Worded name.toList ws ↔ ws = words) ∧
      (snakeCase name).toList = joinWith ['_'] (words.map (List.map Char.toLower)) ∧
      ∀ before after,
        Parted (joinWith ['_']) (words.map (List.map Char.toLower)) before after →
        (snakeCase name).toList = before ++ '_' :: after ∧ Enclosed before after) ∧
    snakeCase (snakeCase name) = snakeCase name := by
  have text : (snakeCase name).toList = snakeFrom none name.toList := String.toList_ofList
  have lowered : name.toLower.toList = name.toList.flatMap small := by
    rw [flatMap_small_ascii ascii, String.toLower, String.toList_map]
  have worded := (worded_iff name.toList _).mpr rfl
  have words : (wordsOf name.toList).map (List.map Char.toLower) =
      (wordsOf name.toList).map (List.flatMap small) := by
    refine List.map_congr_left fun word member => (flatMap_small_ascii fun c among => ?_).symm
    have inside : c ∈ name.toList := by
      rw [← worded.whole]
      exact List.mem_flatten_of_mem member among
    exact ascii c inside
  have capitals := snakeCase_no_capitals ascii
  refine ⟨capitals, ?_, ?_, ⟨wordsOf name.toList, worded_iff name.toList, ?_⟩, ?_⟩
  · rw [text, lowered, snakeFrom_letters]
  · rw [text, lowered]
    exact snakeFrom_sublist none name.toList
  · rw [words]
    refine ⟨snakeCase_joined name, fun before after joint => ⟨?_, joint_enclosed worded joint⟩⟩
    rw [snakeCase_joined, joined_at joint]
  · conv_lhs => rw [snakeCase, snakeFrom_without_capitals none capitals, String.ofList_toList]

theorem status_in_words : let name := "__getHTTPStatus_2X_Y"
    let words := ["__get", "HTTP", "Status_2", "X_Y"].map String.toList
    (∀ c ∈ name.toList, c.toNat < 0x80) ∧ Worded name.toList words ∧
    snakeCase name = "__get_http_status_2_x_y" ∧
    (∀ c ∈ (snakeCase name).toList, isUppercase c = false) ∧
    (snakeCase name).toList.filter (· != '_') = name.toLower.toList.filter (· != '_') ∧
    name.toLower.toList.Sublist (snakeCase name).toList ∧
    (∀ before after,
      Parted (joinWith ['_']) (words.map (List.map Char.toLower)) before after →
        (snakeCase name).toList = before ++ '_' :: after ∧ Enclosed before after) ∧
    snakeCase (snakeCase name) = snakeCase name := by
  intro name words
  have ascii : ∀ c ∈ name.toList, c.toNat < 0x80 := by simp [name]
  obtain ⟨capitals, letters, kept, ⟨_, only, _, joints⟩, again⟩ := snakeCase_in_words name ascii
  have worded : Worded name.toList words := (worded_iff name.toList words).mpr (by decide)
  obtain rfl := (only words).mp worded
  exact ⟨ascii, worded, by decide, capitals, letters, kept, joints, again⟩

/-- Beyond ASCII a capital may have no lower case. -/
example : isUppercase '𝐀' = true ∧ snakeCase "𝐀" = "𝐀" := by decide +kernel

end TypedContracts.Wrapper
