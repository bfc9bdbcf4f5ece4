import TypedContracts.Proofs.Number.Digits
import TypedContracts.Text.Position

/-!
Positions by index. Reading on from the start, character by character, one arrives at the line and
the column that the text in front determines.
-/
namespace TypedContracts.Text

namespace Position

theorem ext {p q : Position} (line : p.line = q.line) (column : p.column = q.column) : p = q := by
  cases p
  cases q
  obtain rfl := line
  obtain rfl := column
  rfl

def along (p : Position) (cs : List Char) : Position := cs.foldl after p

theorem along_cons (p : Position) (c : Char) (cs : List Char) :
    p.along (c :: cs) = (p.after c).along cs := rfl

theorem along_append (p : Position) (cs ds : List Char) :
    p.along (cs ++ ds) = (p.along cs).along ds :=
  List.foldl_append

theorem along_line (p : Position) (cs : List Char) :
    (p.along cs).line = p.line + cs.count '\n' := by
  induction cs generalizing p with
  | nil => rfl
  | cons c cs ih =>
    rw [along_cons, ih, after]
    by_cases newline : c = '\n'
    · simp only [newline, ↓reduceIte, List.count_cons_self]
      omega
    · simp [newline]

theorem along_column (p : Position) {cs : List Char} (oneLine : '\n' ∉ cs) :
    (p.along cs).column = p.column + cs.length := by
  induction cs generalizing p with
  | nil => rfl
  | cons c cs ih =>
    obtain ⟨here, later⟩ := not_or.mp (mt List.mem_cons.mpr oneLine)
    rw [along_cons, ih _ later, after, if_neg (Ne.symm here), List.length_cons]
    exact Nat.add_right_comm p.column 1 cs.length

theorem along_ne (p : Position) {cs : List Char} (present : cs ≠ []) : p.along cs ≠ p := by
  intro same
  have line := along_line p cs
  rw [same] at line
  have oneLine : '\n' ∉ cs := List.count_eq_zero.mp (by omega)
  have column := along_column p oneLine
  rw [same] at column
  have length := List.length_pos_iff.mpr present
  omega

theorem text_chars (p : Position) :
    p.text.toList = Digits.decimal p.line ++ ':' :: Digits.decimal p.column := by
  simp [text, Nat.toString_eq_repr, Nat.toList_repr, Digits.decimal]

theorem text_no_space (p : Position) : ' ' ∉ p.text.toList := by
  rw [text_chars]
  intro member
  rcases List.mem_append.mp member with line | tail
  · exact absurd (decimal_digits _ _ line) (by decide)
  rcases List.mem_cons.mp tail with colon | column
  · exact absurd colon (by decide)
  · exact absurd (decimal_digits _ _ column) (by decide)

theorem text_injective : Function.Injective text := by
  intro p q same
  have chars := congrArg String.toList same
  have colon (n : Nat) : ':' ∉ Digits.decimal n :=
    fun member => absurd (decimal_digits n ':' member) (by decide)
  rw [text_chars, text_chars,
    List.append_cons_inj_of_notMem (colon p.line) (colon p.column)] at chars
  obtain ⟨line, _, column⟩ := chars
  exact Position.ext (decimal_injective line) (decimal_injective column)

end Position

/-- One line more than there are line ends in front, and one column more than there are characters
since the last of them. -/
def placeAt (cs : List Char) (i : Nat) : Position where
  line := 1 + (cs.take i).count '\n'
  column := 1 + ((cs.take i).reverse.takeWhile (· != '\n')).length

theorem along_origin (cs : List Char) : Position.origin.along cs =
    ⟨1 + cs.count '\n', 1 + (cs.reverse.takeWhile (· != '\n')).length⟩ := by
  induction cs using List.reverseRecOn with
  | nil => rfl
  | append_singleton cs c ih =>
    rw [Position.along_append, ih]
    change Position.after _ c = _
    by_cases newline : c = '\n'
    · subst newline
      simp [Position.after, add_assoc]
    · simp [Position.after, newline, add_comm]

theorem placeAt_eq_along (cs : List Char) (i : Nat) :
    placeAt cs i = Position.origin.along (cs.take i) := by
  rw [along_origin, placeAt]

theorem place_behind (cs ds : List Char) :
    placeAt (cs ++ ds) cs.length = Position.origin.along cs := by
  rw [placeAt_eq_along, List.take_left]

theorem place_ne {cs : List Char} {i j : Nat} (before : i < j) (within : j ≤ cs.length) :
    placeAt cs i ≠ placeAt cs j := by
  have split : cs.take j = cs.take i ++ (cs.drop i).take (j - i) := by
    rw [← List.take_add, Nat.add_sub_cancel' before.le]
  have between : (cs.drop i).take (j - i) ≠ [] := by
    refine List.ne_nil_of_length_pos ?_
    rw [List.length_take, List.length_drop]
    omega
  rw [placeAt_eq_along, placeAt_eq_along, split, Position.along_append]
  exact (Position.along_ne _ between).symm

theorem place_injective {cs : List Char} {i j : Nat} (first : i ≤ cs.length)
    (second : j ≤ cs.length) (same : placeAt cs i = placeAt cs j) : i = j := by
  rcases Nat.lt_trichotomy i j with less | equal | more
  · exact absurd same (place_ne less second)
  · exact equal
  · exact absurd same.symm (place_ne more first)

end TypedContracts.Text
