import Mathlib
import TypedContracts.Text.Blank

/-!
Lines without trailing blanks and without empty ones among them. Seen character by character, a
blank goes when nothing or a line end is kept behind it, and a line end at the very start goes too.
What stands in front of a double quote is settled by itself, since its last line goes on.
-/
namespace TypedContracts.Text

def solid (cs : List Char) : List Char := cs.filter fun c => !isBlank c

def trimLines (ls : List (List Char)) : List (List Char) :=
  (ls.map trimEnd).filter fun line => !line.isEmpty

def atLineEnd : List Char → Bool
  | [] => true
  | c :: _ => c == '\n'

/-- What is left when every blank goes that has a line end or nothing behind it. -/
def settle : List Char → List Char
  | [] => []
  | c :: cs => if isBlank c && atLineEnd (settle cs) then settle cs else c :: settle cs

def withoutLineStart : List Char → List Char
  | [] => []
  | c :: cs => if c = '\n' then cs else c :: cs

@[simp] theorem newline_blank : isBlank '\n' = true := by decide

theorem splitAt_eq_splitOnP (cut : Char → Bool) (cs : List Char) :
    splitAt cut cs = cs.splitOnP cut := by
  induction cs with
  | nil => simp [splitAt]
  | cons c cs ih =>
    obtain ⟨piece, rest, pieces⟩ := List.exists_cons_of_ne_nil (List.splitOnP_ne_nil cut cs)
    unfold splitAt at ih ⊢
    rw [List.foldr_cons, ih, List.splitOnP_cons_eq_if_modifyHead]
    simp [pieces]

theorem joinWith_eq_intercalate (separator : List Char) (pieces : List (List Char)) :
    joinWith separator pieces = separator.intercalate pieces := by
  induction pieces with
  | nil => rfl
  | cons piece rest ih =>
    cases rest with
    | nil => simp [joinWith]
    | cons next rest => rw [joinWith, ih, List.intercalate_cons_cons]

theorem joined_cons (line : List Char) (ls : List (List Char)) :
    joinWith ['\n'] (line :: ls) = line ++ ls.flatMap ('\n' :: ·) := by
  induction ls generalizing line with
  | nil => simp [joinWith]
  | cons next rest ih => simp [joinWith, ih]

theorem joinWith_front (separator front piece : List Char) (rest : List (List Char)) :
    joinWith separator ((front ++ piece) :: rest) = front ++ joinWith separator (piece :: rest) := by
  cases rest <;> simp [joinWith]

theorem joinWith_append {first second : List (List Char)} (some : first ≠ []) (more : second ≠ [])
    (separator : List Char) : joinWith separator (first ++ second) =
      joinWith separator first ++ separator ++ joinWith separator second := by
  induction first with
  | nil => exact absurd rfl some
  | cons piece first ih =>
    cases first with
    | nil =>
      obtain ⟨next, second, rfl⟩ := List.exists_cons_of_ne_nil more
      rfl
    | cons next first =>
      have tail := ih (List.cons_ne_nil next first)
      rw [List.cons_append] at tail
      simp [joinWith, tail]

theorem joinWith_head {pieces : List (List Char)} (present : [] ∉ pieces)
    (separator : List Char) : (joinWith separator pieces).head? = pieces.flatten.head? := by
  cases pieces with
  | nil => rfl
  | cons piece rest =>
    have some : piece ≠ [] := fun none => present (by simp [none])
    obtain ⟨c, piece, rfl⟩ := List.exists_cons_of_ne_nil some
    have first := joinWith_front separator [c] piece rest
    rw [List.singleton_append] at first
    rw [first]
    rfl

theorem joinWith_last {pieces : List (List Char)} (present : [] ∉ pieces)
    (separator : List Char) : (joinWith separator pieces).getLast? = pieces.flatten.getLast? := by
  induction pieces with
  | nil => rfl
  | cons piece rest ih =>
    cases rest with
    | nil => simp [joinWith]
    | cons next rest =>
      have present : [] ∉ next :: rest := fun empty => present (List.mem_cons_of_mem piece empty)
      have some : next ≠ [] := fun none => present (by simp [none])
      have tail : (next :: rest).flatten ≠ [] := List.append_ne_nil_of_left_ne_nil some _
      calc
        (joinWith separator (piece :: next :: rest)).getLast?
        _ = (joinWith separator (next :: rest)).getLast?.or (piece ++ separator).getLast? := by
          rw [joinWith, List.getLast?_append]
        _ = (next :: rest).flatten.getLast? := by
          rw [ih present, List.getLast?_eq_some_getLast tail, Option.some_or]
        _ = (piece ++ (next :: rest).flatten).getLast? := by
          rw [List.getLast?_append_of_ne_nil piece tail]

theorem splitOn_cons (c : Char) (cs : List Char) : (c :: cs).splitOn '\n' =
    if c = '\n' then [] :: cs.splitOn '\n' else (cs.splitOn '\n').modifyHead (c :: ·) := by
  simp [List.splitOn_cons_eq_if_modifyHead]

theorem piece_of_line {line cs : List Char} (member : line ∈ cs.splitOn '\n') : '\n' ∉ line := by
  induction cs generalizing line with
  | nil => simp_all
  | cons c cs ih =>
    obtain ⟨piece, rest, pieces⟩ := List.exists_cons_of_ne_nil (List.splitOn_ne_nil '\n' cs)
    rw [splitOn_cons, pieces] at member
    rw [pieces] at ih
    by_cases newline : c = '\n'
    · simp only [newline, ↓reduceIte, List.mem_cons] at member
      rcases member with empty | later
      · simp [empty]
      · exact ih (by simpa using later)
    · simp only [newline, ↓reduceIte, List.modifyHead_cons, List.mem_cons] at member
      rcases member with first | later
      · have tail := ih List.mem_cons_self
        simp [first, tail, Ne.symm newline]
      · exact ih (by simp [later])

theorem trimEnd_cons (c : Char) (cs : List Char) :
    trimEnd (c :: cs) = if isBlank c && (trimEnd cs).isEmpty then [] else c :: trimEnd cs := by
  simp only [trimEnd, List.reverse_cons, List.dropWhile_append, List.isEmpty_reverse]
  by_cases empty : (List.dropWhile isBlank cs.reverse).isEmpty = true
  · by_cases blank : isBlank c = true
    · simp [empty, blank]
    · have nothing : List.dropWhile isBlank cs.reverse = [] := List.isEmpty_iff.mp empty
      simp [nothing, blank]
  · simp [empty]

theorem trimEnd_dropReturn (line : List Char) : trimEnd (dropReturn line) = trimEnd line := by
  unfold dropReturn
  split
  · rename_i rest reversed
    have back : isBlank '\r' = true := by decide
    simp [trimEnd, reversed, back]
  · rfl

theorem trimEnd_last (line : List Char) : ∀ c ∈ (trimEnd line).getLast?, isBlank c = false := by
  intro c last
  have first : (line.reverse.dropWhile isBlank).head? = some c := by
    simpa [trimEnd, List.getLast?_reverse] using last
  have kept := List.head?_dropWhile_not isBlank line.reverse
  simpa [first] using kept

theorem trimEnd_member {c : Char} {line : List Char} (member : c ∈ trimEnd line) : c ∈ line := by
  have inside : c ∈ line.reverse.dropWhile isBlank := by simpa [trimEnd] using member
  exact List.mem_reverse.mp ((List.dropWhile_sublist isBlank).subset inside)

theorem trimLines_cons (line : List Char) (ls : List (List Char)) : trimLines (line :: ls) =
    if (trimEnd line).isEmpty then trimLines ls else trimEnd line :: trimLines ls := by
  cases empty : (trimEnd line).isEmpty <;> simp [trimLines, empty]

theorem trimLines_closeLines (ls : List (List Char)) : trimLines (closeLines ls) = trimLines ls := by
  fun_induction closeLines ls with
  | case1 => rfl
  | case2 last empty =>
    obtain rfl : last = [] := List.isEmpty_iff.mp empty
    rfl
  | case3 last present => rfl
  | case4 line next rest ih => rw [trimLines_cons, trimLines_cons, trimEnd_dropReturn, ih]

theorem trimLines_lines (cs : List Char) : trimLines (lines cs) = trimLines (cs.splitOn '\n') := by
  rw [lines, trimLines_closeLines, splitAt_eq_splitOnP]
  rfl

theorem trimLines_member {line cs : List Char} (member : line ∈ trimLines (cs.splitOn '\n')) :
    line ≠ [] ∧ '\n' ∉ line ∧ ∀ c ∈ line.getLast?, isBlank c = false := by
  obtain ⟨inside, present⟩ := List.mem_filter.mp member
  obtain ⟨piece, among, trimmed⟩ := List.mem_map.mp inside
  rw [← trimmed] at present ⊢
  refine ⟨by simpa using present, ?_, trimEnd_last piece⟩
  intro newline
  exact piece_of_line among (trimEnd_member newline)

theorem solid_append (cs ds : List Char) : solid (cs ++ ds) = solid cs ++ solid ds :=
  List.filter_append ..

theorem solid_cons (c : Char) (cs : List Char) :
    solid (c :: cs) = if isBlank c then solid cs else c :: solid cs := by
  cases blank : isBlank c <;> simp [solid, blank]

theorem settle_cons (c : Char) (cs : List Char) : settle (c :: cs) =
    if isBlank c && atLineEnd (settle cs) then settle cs else c :: settle cs := rfl

theorem settle_cases (c : Char) (cs : List Char) :
    (isBlank c = true ∧ atLineEnd (settle cs) = true ∧ settle (c :: cs) = settle cs) ∨
      settle (c :: cs) = c :: settle cs := by
  rw [settle_cons]
  split
  · rename_i dropped
    obtain ⟨blank, ends⟩ : isBlank c = true ∧ atLineEnd (settle cs) = true := by
      simpa using dropped
    exact .inl ⟨blank, ends, rfl⟩
  · exact .inr rfl

theorem settle_solid {c : Char} (mark : isBlank c = false) (cs : List Char) :
    settle (c :: cs) = c :: settle cs := by
  simp [settle_cons, mark]

theorem solid_settle (cs : List Char) : solid (settle cs) = solid cs := by
  induction cs with
  | nil => rfl
  | cons c cs ih =>
    rw [settle_cons, solid_cons c cs, ← ih]
    cases blank : isBlank c with
    | false => simp [solid_cons, blank]
    | true =>
      cases ends : atLineEnd (settle cs) <;> simp [solid_cons, blank]

theorem length_settle (cs : List Char) : (settle cs).length ≤ cs.length := by
  induction cs with
  | nil => exact Nat.le_refl 0
  | cons c cs ih =>
    rcases settle_cases c cs with ⟨_, _, dropped⟩ | kept
    · rw [dropped]
      exact Nat.le_succ_of_le ih
    · rw [kept]
      exact Nat.succ_le_succ ih

theorem settle_settle (cs : List Char) : settle (settle cs) = settle cs := by
  induction cs with
  | nil => rfl
  | cons c cs ih =>
    by_cases drops : (isBlank c && atLineEnd (settle cs)) = true
    · rw [settle_cons, if_pos drops, ih]
    · rw [settle_cons, if_neg drops, settle_cons, ih, if_neg drops]

theorem settle_lineStart (cs : List Char) :
    settle (withoutLineStart (settle cs)) = withoutLineStart (settle cs) := by
  have again := settle_settle cs
  cases whole : settle cs with
  | nil => rfl
  | cons c rest =>
    rw [whole] at again
    rw [withoutLineStart]
    split
    · rcases settle_cases c rest with ⟨_, _, dropped⟩ | kept
      · have shorter := length_settle rest
        rw [dropped.symm.trans again] at shorter
        simp at shorter
      · exact (List.cons.inj (kept.symm.trans again)).2
    · exact again

theorem solid_withoutLineStart (cs : List Char) : solid (withoutLineStart cs) = solid cs := by
  cases cs with
  | nil => rfl
  | cons c cs =>
    by_cases newline : c = '\n'
    · subst newline
      rfl
    · simp [withoutLineStart, newline]

theorem trimEnd_first {piece : List Char} (clean : '\n' ∉ piece) :
    '\n' ∉ (trimEnd piece).head? := by
  intro newline
  exact clean (trimEnd_member (List.mem_of_mem_head? newline))

theorem ended_lines_atLineEnd (ls : List (List Char)) : atLineEnd (ls.flatMap ('\n' :: ·)) = true := by
  cases ls <;> rfl

/-- The first line is kept as it is trimmed; each later one that is kept brings its line end. -/
theorem settle_pieces (cs : List Char) : ∀ piece rest, cs.splitOn '\n' = piece :: rest →
    settle cs = trimEnd piece ++ (trimLines rest).flatMap ('\n' :: ·) := by
  induction cs with
  | nil =>
    intro piece rest pieces
    obtain ⟨first, later⟩ : [] = piece ∧ [] = rest := by simpa using pieces
    subst first later
    rfl
  | cons c cs ih =>
    intro piece rest pieces
    obtain ⟨first, later, tail⟩ := List.exists_cons_of_ne_nil (List.splitOn_ne_nil '\n' cs)
    have kept := ih first later tail
    have ends : atLineEnd (settle cs) = (trimEnd first).isEmpty := by
      have inside : first ∈ cs.splitOn '\n' := by simp [tail]
      have clean := trimEnd_first (piece_of_line inside)
      rw [kept]
      cases line : trimEnd first with
      | nil => exact ended_lines_atLineEnd _
      | cons d ds =>
        have notNewline : d ≠ '\n' := by simpa [line] using clean
        simp [atLineEnd, notNewline]
    rw [splitOn_cons, tail] at pieces
    rw [settle_cons, ends]
    by_cases newline : c = '\n'
    · subst newline
      obtain ⟨rfl, rfl⟩ : [] = piece ∧ first :: later = rest := by simpa using pieces
      have nothing : trimEnd [] = [] := rfl
      rw [trimLines_cons, kept, newline_blank, nothing]
      cases line : trimEnd first <;> simp
    · obtain ⟨rfl, rfl⟩ : c :: first = piece ∧ later = rest := by simpa [newline] using pieces
      rw [trimEnd_cons, kept]
      cases isBlank c <;> cases line : trimEnd first <;> simp

theorem joined_trimLines (cs : List Char) :
    joinWith ['\n'] (trimLines (cs.splitOn '\n')) = withoutLineStart (settle cs) := by
  obtain ⟨first, later, pieces⟩ := List.exists_cons_of_ne_nil (List.splitOn_ne_nil '\n' cs)
  rw [settle_pieces cs first later pieces, pieces, trimLines_cons]
  cases line : trimEnd first with
  | nil =>
    cases trimLines later with
    | nil => rfl
    | cons next rest => exact joined_cons next rest
  | cons d ds =>
    have inside : first ∈ cs.splitOn '\n' := by simp [pieces]
    have clean := trimEnd_first (piece_of_line inside)
    have notNewline : d ≠ '\n' := by simpa [line] using clean
    simp [joined_cons, withoutLineStart, notNewline]

def settleInside : List Char → List Char
  | [] => []
  | c :: cs =>
    if isBlank c && (settleInside cs).head? == some '\n' then settleInside cs
    else c :: settleInside cs

def Loose (cs : List Char) : Prop :=
  ∃ before c after, cs = before ++ c :: '\n' :: after ∧ isBlank c = true

theorem loose_cons (c : Char) (cs : List Char) :
    Loose (c :: cs) ↔ (isBlank c = true ∧ cs.head? = some '\n') ∨ Loose cs := by
  constructor
  · intro loose
    obtain ⟨before, d, after, same, blank⟩ := loose
    cases before with
    | nil =>
      obtain ⟨equal, rest⟩ := List.cons.inj same
      subst equal rest
      exact .inl ⟨blank, rfl⟩
    | cons e before => exact .inr ⟨before, d, after, (List.cons.inj same).2, blank⟩
  · intro either
    rcases either with ⟨blank, first⟩ | ⟨before, d, after, same, blank⟩
    · obtain ⟨after, same⟩ := List.head?_eq_some_iff.mp first
      exact ⟨[], c, after, by simp [same], blank⟩
    · exact ⟨c :: before, d, after, by simp [same], blank⟩

theorem loose_of_part {part cs : List Char} (inside : part <:+: cs) (loose : Loose part) :
    Loose cs := by
  obtain ⟨left, right, whole⟩ := inside
  obtain ⟨before, c, after, same, blank⟩ := loose
  exact ⟨left ++ before, c, after ++ right, by simp [← whole, same], blank⟩

theorem not_loose_of_one_line {cs : List Char} (oneLine : '\n' ∉ cs) : ¬Loose cs := by
  intro loose
  obtain ⟨before, c, after, same, _⟩ := loose
  exact oneLine (by simp [same])

theorem settle_not_loose (cs : List Char) : ¬Loose (settle cs) := by
  induction cs with
  | nil => simp [settle, Loose]
  | cons c cs ih =>
    by_cases drops : (isBlank c && atLineEnd (settle cs)) = true
    · rwa [settle_cons, if_pos drops]
    · rw [settle_cons, if_neg drops, loose_cons]
      intro either
      rcases either with ⟨blank, first⟩ | later
      · obtain ⟨after, same⟩ := List.head?_eq_some_iff.mp first
        exact drops (by simp [blank, same, atLineEnd])
      · exact ih later

theorem length_settleInside (cs : List Char) : (settleInside cs).length ≤ cs.length := by
  induction cs with
  | nil => exact Nat.le_refl 0
  | cons c cs ih =>
    rw [settleInside]
    split
    · exact Nat.le_succ_of_le ih
    · exact Nat.succ_le_succ ih

theorem settleInside_eq_iff (cs : List Char) : settleInside cs = cs ↔ ¬Loose cs := by
  induction cs with
  | nil => simp [settleInside, Loose]
  | cons c cs ih =>
    rw [settleInside, loose_cons]
    split
    · rename_i dropped
      obtain ⟨blank, first⟩ : isBlank c = true ∧ (settleInside cs).head? = some '\n' := by
        simpa using dropped
      constructor
      · intro same
        have shorter := length_settleInside cs
        rw [same, List.length_cons] at shorter
        omega
      · intro tight
        obtain ⟨apart, others⟩ := not_or.mp tight
        rw [ih.mpr others] at first
        exact absurd ⟨blank, first⟩ apart
    · rename_i kept
      rw [List.cons.injEq, eq_self, true_and, ih]
      constructor
      · intro others either
        rw [ih.mpr others] at kept
        rcases either with apart | later
        · exact kept (by simpa using apart)
        · exact others later
      · intro tight
        exact (not_or.mp tight).2

theorem solid_settleInside (cs : List Char) : solid (settleInside cs) = solid cs := by
  induction cs with
  | nil => rfl
  | cons c cs ih =>
    rw [settleInside, solid_cons c cs, ← ih]
    split
    · rename_i dropped
      obtain ⟨blank, _⟩ : isBlank c = true ∧ (settleInside cs).head? = some '\n' := by
        simpa using dropped
      rw [if_pos blank]
    · exact solid_cons c _

theorem settle_before_quote (cs ds : List Char) :
    settle (cs ++ '"' :: ds) = settleInside cs ++ '"' :: settle ds := by
  have quoteSolid : isBlank '"' = false := by decide
  induction cs with
  | nil => exact settle_solid quoteSolid ds
  | cons c cs ih =>
    have ends : atLineEnd (settleInside cs ++ '"' :: settle ds) =
        ((settleInside cs).head? == some '\n') := by
      cases settleInside cs with
      | nil => rfl
      | cons d rest => simp [atLineEnd]
    rw [List.cons_append, settle_cons, ih, ends, settleInside]
    split <;> rfl

theorem settle_append (cs ds : List Char) : ∃ kept, settle (cs ++ ds) = kept ++ settle ds := by
  induction cs with
  | nil => exact ⟨[], rfl⟩
  | cons c cs ih =>
    obtain ⟨kept, same⟩ := ih
    rcases settle_cases c (cs ++ ds) with ⟨_, _, dropped⟩ | stays
    · exact ⟨kept, dropped.trans same⟩
    · exact ⟨c :: kept, by rw [List.cons_append, stays, same, List.cons_append]⟩

theorem withoutLineStart_suffix (cs : List Char) : withoutLineStart cs <:+ cs := by
  cases cs with
  | nil => exact List.suffix_rfl
  | cons c cs =>
    rw [withoutLineStart]
    split
    · exact List.suffix_cons c cs
    · exact List.suffix_rfl

theorem withoutLineStart_before_quote (cs ds : List Char) :
    withoutLineStart (cs ++ '"' :: ds) = withoutLineStart cs ++ '"' :: ds := by
  cases cs with
  | nil => rfl
  | cons c cs =>
    rw [List.cons_append, withoutLineStart, withoutLineStart]
    split <;> rfl

end TypedContracts.Text
