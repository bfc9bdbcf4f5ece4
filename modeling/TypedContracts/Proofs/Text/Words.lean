import TypedContracts.Proofs.Text.Lines

/-!
The words of a text. Blanks around a text and the carriage return of a line make no difference to
them, and the first word is what the trimmed text begins with.
-/
namespace TypedContracts.Text

theorem words_pieces (cs : List Char) :
    words cs = (cs.splitOnP isBlank).filter fun w => !w.isEmpty := by
  rw [words, splitAt_eq_splitOnP]

@[simp] theorem words_nil : words [] = [] := rfl

theorem words_cons_blank {c : Char} (blank : isBlank c = true) (cs : List Char) :
    words (c :: cs) = words cs := by
  have pieces := List.splitOnP_append_cons [] cs blank
  rw [List.nil_append] at pieces
  simp [words_pieces, pieces]

theorem words_append (cs : List Char) {rest : List Char}
    (apart : ∀ c ∈ rest.head?, isBlank c = true) : words (cs ++ rest) = words cs ++ words rest := by
  cases rest with
  | nil => simp
  | cons c rest =>
    have blank : isBlank c = true := apart c rfl
    rw [words_cons_blank blank]
    simp only [words_pieces, List.splitOnP_append_cons cs rest blank, List.filter_append]

theorem words_behind_blanks {gap : List Char} (blanks : ∀ c ∈ gap, isBlank c = true)
    (cs : List Char) : words (gap ++ cs) = words cs := by
  induction gap with
  | nil => rfl
  | cons c gap ih =>
    rw [List.cons_append, words_cons_blank (blanks c List.mem_cons_self)]
    exact ih fun d member => blanks d (List.mem_cons_of_mem c member)

theorem words_before_blanks {gap : List Char} (blanks : ∀ c ∈ gap, isBlank c = true)
    (cs : List Char) : words (cs ++ gap) = words cs := by
  have nothing : words gap = [] := by
    have only := words_behind_blanks blanks []
    rwa [List.append_nil] at only
  rw [words_append cs fun c first => blanks c (List.mem_of_mem_head? first), nothing,
    List.append_nil]

theorem trimmed_blanks (cs : List Char) : ∃ front back, cs = front ++ trim cs ++ back ∧
    (∀ c ∈ front, isBlank c = true) ∧ ∀ c ∈ back, isBlank c = true := by
  have start := List.takeWhile_append_dropWhile (p := isBlank) (l := cs)
  have ending :=
    List.takeWhile_append_dropWhile (p := isBlank) (l := (cs.dropWhile isBlank).reverse)
  refine ⟨cs.takeWhile isBlank, ((cs.dropWhile isBlank).reverse.takeWhile isBlank).reverse,
    ?_, ?_, ?_⟩
  · rw [trim, dropAround, List.append_assoc, ← List.reverse_append, ending, List.reverse_reverse,
      start]
  · intro c member
    exact List.mem_takeWhile_imp member
  · intro c member
    exact List.mem_takeWhile_imp (List.mem_reverse.mp member)

theorem words_trim (cs : List Char) : words (trim cs) = words cs := by
  obtain ⟨front, back, whole, before, behind⟩ := trimmed_blanks cs
  conv_rhs => rw [whole, words_before_blanks behind, words_behind_blanks before]

theorem words_dropReturn (line : List Char) : words (dropReturn line) = words line := by
  unfold dropReturn
  split
  · rename_i rest reversed
    have whole : line = rest.reverse ++ ['\r'] := by
      rw [← List.reverse_reverse line, reversed, List.reverse_cons]
    have blanks : ∀ c ∈ ['\r'], isBlank c = true := by
      intro c member
      rw [List.mem_singleton.mp member]
      decide
    rw [whole, words_before_blanks blanks]
  · rfl

theorem words_solid {word : List Char} (present : word ≠ [])
    (solid : ∀ c ∈ word, isBlank c = false) : words word = [word] := by
  rw [words_pieces, List.splitOnP_eq_singleton solid]
  simp [present]

theorem trim_first (cs : List Char) : ∀ c ∈ (trim cs).head?, isBlank c = false := by
  intro c first
  have whole : trim cs = trimEnd (cs.dropWhile isBlank) := rfl
  have kept := List.head?_dropWhile_not isBlank cs
  rw [whole] at first
  cases start : cs.dropWhile isBlank with
  | nil => simp [start, trimEnd] at first
  | cons d ds =>
    have mark : isBlank d = false := by simpa [start] using kept
    rw [start, trimEnd_cons, mark] at first
    obtain rfl : d = c := by simpa using first
    exact mark

theorem words_head (cs : List Char) :
    (words cs).headD [] = (trim cs).takeWhile fun c => !isBlank c := by
  rw [← words_trim]
  have parts := List.takeWhile_append_dropWhile (p := fun c => !isBlank c) (l := trim cs)
  have rest := List.head?_dropWhile_not (fun c => !isBlank c) (trim cs)
  have solid : ∀ c ∈ (trim cs).takeWhile fun c => !isBlank c, isBlank c = false := by
    intro c member
    simpa using List.mem_takeWhile_imp member
  have apart : ∀ c ∈ ((trim cs).dropWhile fun c => !isBlank c).head?, isBlank c = true := by
    intro c first
    simpa [Option.mem_def.mp first] using rest
  conv_lhs => rw [← parts]
  rw [words_append _ apart]
  cases start : trim cs with
  | nil => rfl
  | cons c ds =>
    have mark : isBlank c = false := trim_first cs c (by simp [start])
    have present : (c :: ds).takeWhile (fun c => !isBlank c) ≠ [] := by simp [mark]
    rw [start] at solid
    rw [words_solid present solid]
    rfl

theorem trim_prefix_iff {word : List Char} (solid : ∀ c ∈ word, isBlank c = false)
    (cs : List Char) : word <+: trim cs ↔ word <+: (words cs).headD [] := by
  rw [words_head]
  constructor
  · intro begins
    obtain ⟨rest, whole⟩ := begins
    rw [← whole, List.takeWhile_append_of_pos fun c member => by simp [solid c member]]
    exact List.prefix_append word _
  · intro begins
    exact begins.trans (List.takeWhile_prefix _)

end TypedContracts.Text
