import TypedContracts.Proofs.Source.Pieces
import TypedContracts.Proofs.Text.Lines

/-!
What compressing does to the pieces of a source. Characters and literals stay, a comment leaves its
line ends; after that only blanks go.
-/
namespace TypedContracts.Source
open TypedContracts.Text

def Piece.outside : Piece → List Char
  | .plain c => [c]
  | .literal body => '"' :: body ++ ['"']
  | .comment _ => []
  | .unclosed _ => []

def lineEnds (cs : List Char) : List Char := cs.filter (· == '\n')

def Piece.remains : Piece → List Piece
  | .plain c => [.plain c]
  | .literal body => [.literal body]
  | .comment inside => (lineEnds inside).map .plain
  | .unclosed inside => (lineEnds inside).map .plain

def outside (ps : List Piece) : List Char := ps.flatMap Piece.outside

def remains (ps : List Piece) : List Piece := ps.flatMap Piece.remains

theorem outside_cons (p : Piece) (ps : List Piece) : outside (p :: ps) = p.outside ++ outside ps :=
  List.flatMap_cons

theorem outside_append (ps qs : List Piece) : outside (ps ++ qs) = outside ps ++ outside qs :=
  List.flatMap_append

theorem outside_plain (cs : List Char) : outside (cs.map .plain) = cs := by
  induction cs with
  | nil => rfl
  | cons c cs ih => rw [List.map_cons, outside_cons, ih]; rfl

theorem remains_cons (p : Piece) (ps : List Piece) : remains (p :: ps) = p.remains ++ remains ps :=
  List.flatMap_cons

theorem remains_plain (cs : List Char) : remains (cs.map .plain) = cs.map .plain := by
  induction cs with
  | nil => rfl
  | cons c cs ih => rw [List.map_cons, remains_cons, ih]; rfl

theorem lineEnds_cons (c : Char) (cs : List Char) : lineEnds (c :: cs) = lineEnds [c] ++ lineEnds cs :=
  List.filter_append [c] cs

@[simp] theorem strip_open (cs : List Char) :
    stripComments .code ('(' :: '*' :: cs) = stripComments (.comment 0) cs := rfl

@[simp] theorem strip_quote (cs : List Char) :
    stripComments .code ('"' :: cs) = '"' :: stripComments .string cs := rfl

@[simp] theorem strip_unquote (cs : List Char) :
    stripComments .string ('"' :: cs) = '"' :: stripComments .code cs := rfl

@[simp] theorem strip_escape (c : Char) (cs : List Char) :
    stripComments .string ('\\' :: c :: cs) = '\\' :: c :: stripComments .string cs := rfl

@[simp] theorem strip_nested (outer : Nat) (cs : List Char) :
    stripComments (.comment outer) ('(' :: '*' :: cs) = stripComments (.comment (outer + 1)) cs :=
  rfl

@[simp] theorem strip_mark (outer : Nat) (cs : List Char) :
    stripComments (.comment outer) ('*' :: ')' :: cs) = stripComments (leave outer) cs := rfl

theorem strip_comment_other {c : Char} {cs : List Char} (opening : ¬Opening (c :: cs))
    (closing : ¬Closing (c :: cs)) (outer : Nat) : stripComments (.comment outer) (c :: cs) =
      lineEnds [c] ++ stripComments (.comment outer) cs := by
  rw [stripComments]
  · by_cases newline : c = '\n' <;> simp [lineEnds, newline]
  · intro ds parenthesis star
    exact opening ((opening_cons c cs).mpr ⟨parenthesis, ds, star⟩)
  · intro ds star parenthesis
    exact closing ((closing_cons c cs).mpr ⟨star, ds, parenthesis⟩)

theorem strip_closes {cs rest : List Char} (closes : Closes cs rest) : ∀ outer : Nat,
    ∃ inside, cs = inside ++ '*' :: ')' :: rest ∧
      stripComments (.comment outer) cs = lineEnds inside ++ stripComments (leave outer) rest := by
  induction closes with
  | mark =>
    intro outer
    exact ⟨[], rfl, strip_mark outer _⟩
  | nested inner outer innerStrips outerStrips =>
    intro level
    obtain ⟨first, firstText, firstStrip⟩ := innerStrips (level + 1)
    obtain ⟨second, secondText, secondStrip⟩ := outerStrips level
    refine ⟨'(' :: '*' :: first ++ '*' :: ')' :: second, by simp [firstText, secondText], ?_⟩
    rw [strip_nested, firstStrip, leave, secondStrip]
    simp [lineEnds]
  | @other c _ _ opening closing later strips =>
    intro outer
    obtain ⟨inside, text, strip⟩ := strips outer
    refine ⟨c :: inside, by simp [text], ?_⟩
    rw [strip_comment_other opening closing, strip, lineEnds_cons c inside, List.append_assoc]

/-- As many comments are closed as are open. -/
def ClosesAll : Nat → List Char → List Char → Prop
  | 0, cs, rest => Closes cs rest
  | outer + 1, cs, rest => ∃ middle, Closes cs middle ∧ ClosesAll outer middle rest

theorem closesAll_nested {cs rest : List Char} (outer : Nat)
    (closes : ClosesAll (outer + 1) cs rest) : ClosesAll outer ('(' :: '*' :: cs) rest := by
  obtain ⟨middle, inner, others⟩ := closes
  cases outer with
  | zero => exact .nested inner others
  | succ outer =>
    obtain ⟨next, first, later⟩ := others
    exact ⟨next, .nested inner first, later⟩

theorem closesAll_other {c : Char} {cs rest : List Char} (opening : ¬Opening (c :: cs))
    (closing : ¬Closing (c :: cs)) (outer : Nat) (closes : ClosesAll outer cs rest) :
    ClosesAll outer (c :: cs) rest := by
  cases outer with
  | zero => exact .other opening closing closes
  | succ outer =>
    obtain ⟨middle, first, later⟩ := closes
    exact ⟨middle, .other opening closing first, later⟩

theorem strip_unclosed (cs : List Char) : ∀ outer : Nat, (∀ rest, ¬ClosesAll outer cs rest) →
    stripComments (.comment outer) cs = lineEnds cs := by
  induction length : cs.length using Nat.strongRecOn generalizing cs with
  | ind n ih =>
    intro outer endless
    cases cs with
    | nil => rfl
    | cons c cs =>
      simp only [List.length_cons] at length
      by_cases opening : Opening (c :: cs)
      · obtain ⟨parenthesis, ds, star⟩ := (opening_cons c cs).mp opening
        subst parenthesis star
        simp only [List.length_cons] at length
        rw [strip_nested, ih ds.length (by omega) ds rfl (outer + 1)]
        · simp [lineEnds]
        · intro rest closes
          exact endless rest (closesAll_nested outer closes)
      by_cases closing : Closing (c :: cs)
      · obtain ⟨star, ds, parenthesis⟩ := (closing_cons c cs).mp closing
        subst star parenthesis
        simp only [List.length_cons] at length
        cases outer with
        | zero => exact absurd .mark (endless ds)
        | succ outer =>
          rw [strip_mark, leave, ih ds.length (by omega) ds rfl outer]
          · simp [lineEnds]
          · intro rest closes
            exact endless rest ⟨ds, .mark, closes⟩
      · rw [strip_comment_other opening closing, ih cs.length (by omega) cs rfl outer]
        · exact (lineEnds_cons c cs).symm
        · intro rest closes
          exact endless rest (closesAll_other opening closing outer closes)

theorem strip_string_plain {c : Char} (quote : c ≠ '"') (backslash : c ≠ '\\') (cs : List Char) :
    stripComments .string (c :: cs) = c :: stripComments .string cs := by
  rw [stripComments]
  · rw [if_neg quote]
  · intro d ds equal
    exact absurd equal backslash

theorem strip_quoted {body : List Char} (quoted : Quoted body) (cs : List Char) :
    stripComments .string (body ++ '"' :: cs) = body ++ '"' :: stripComments .code cs := by
  induction quoted with
  | nil => exact strip_unquote cs
  | plain quote backslash rest ih => rw [List.cons_append, strip_string_plain quote backslash, ih]; rfl
  | escaped c rest ih => simp [ih]

theorem strip_dangling {cs : List Char} (dangling : Dangling cs) :
    stripComments .string cs = cs := by
  induction dangling with
  | nil => rfl
  | lone => rfl
  | plain quote backslash rest ih => rw [strip_string_plain quote backslash, ih]
  | escaped c rest ih => rw [strip_escape, ih]

theorem strip_code_plain {c : Char} {cs : List Char} (quote : c ≠ '"')
    (mark : ¬Opening (c :: cs)) : stripComments .code (c :: cs) = c :: stripComments .code cs := by
  rw [stripComments]
  · rw [if_neg quote]
  · intro ds parenthesis star
    exact mark ((opening_cons c cs).mpr ⟨parenthesis, ds, star⟩)

theorem strip_splits {cs : List Char} {ps : List Piece} (splits : Splits cs ps) :
    stripComments .code cs = outside (remains ps) := by
  induction splits with
  | nil => rfl
  | plain quote mark rest ih =>
    rw [strip_code_plain quote mark, ih]
    rfl
  | literal inside rest ih =>
    rw [List.cons_append, strip_quote, strip_quoted inside, ih]
    simp [remains_cons, outside_cons, Piece.remains, Piece.outside]
  | dangling endless => rw [strip_quote, strip_dangling endless, remains_plain, outside_plain]
  | @comment inside cs ps closes rest ih =>
    obtain ⟨found, text, strip⟩ := strip_closes closes 0
    have same : inside = found := List.append_cancel_right text
    subst same
    rw [List.cons_append, List.cons_append, strip_open, strip, leave, ih, remains_cons,
      Piece.remains, outside_append, outside_plain]
  | @unclosed inside endless =>
    rw [strip_open, strip_unclosed inside 0 endless, remains_cons, Piece.remains,
      outside_append, outside_plain]
    simp [remains, outside]

theorem compressChars_joined (code : List Char) : compressChars code =
    joinWith ['\n'] (trimLines ((stripComments .code code).splitOn '\n')) := by
  rw [compressChars, ← trimLines_lines]
  rfl

theorem compressChars_settled {code : List Char} {ps : List Piece} (splits : Splits code ps) :
    compressChars code = withoutLineStart (settle (outside (remains ps))) := by
  rw [compressChars_joined, joined_trimLines, strip_splits splits]

theorem solid_lineEnds (cs : List Char) : solid (lineEnds cs) = [] := by
  induction cs with
  | nil => rfl
  | cons c cs ih =>
    rw [lineEnds_cons, solid_append, ih]
    by_cases newline : c = '\n' <;> simp [lineEnds, newline, solid]

theorem solid_remains (ps : List Piece) : solid (outside (remains ps)) = solid (outside ps) := by
  induction ps with
  | nil => rfl
  | cons p ps ih =>
    rw [remains_cons, outside_append, outside_cons, solid_append, solid_append, ih]
    cases p with
    | plain c => rfl
    | literal body => simp [Piece.remains, outside]
    | comment inside =>
      rw [Piece.remains, outside_plain, solid_lineEnds]
      rfl
    | unclosed inside =>
      rw [Piece.remains, outside_plain, solid_lineEnds]
      rfl

/-- The lines of a text that has any are not empty and end in no blank; neither end of the text is
a line end. -/
structure Tidy (cs : List Char) : Prop where
  lines : cs ≠ [] → ∀ line ∈ cs.splitOn '\n', line ≠ [] ∧ ∀ c ∈ line.getLast?, isBlank c = false
  first : cs.head? ≠ some '\n'
  last : cs.getLast? ≠ some '\n'

theorem tidy_of_lines {cs : List Char} (lines : cs ≠ [] → ∀ line ∈ cs.splitOn '\n',
    line ≠ [] ∧ ∀ c ∈ line.getLast?, isBlank c = false) : Tidy cs := by
  have noEmptyLine : ∀ before after, cs = before ++ '\n' :: after →
      [] ∉ before.splitOn '\n' ++ after.splitOn '\n' := by
    intro before after same empty
    rw [← List.splitOn_append_cons_self, ← same] at empty
    exact (lines (by simp [same]) [] empty).1 rfl
  refine ⟨lines, ?_, ?_⟩
  · intro first
    obtain ⟨after, same⟩ := List.head?_eq_some_iff.mp first
    exact noEmptyLine [] after same (by simp)
  · intro last
    obtain ⟨before, same⟩ := List.getLast?_eq_some_iff.mp last
    exact noEmptyLine before [] same (by simp)

theorem compressChars_tidy (code : List Char) : Tidy (compressChars code) := by
  rw [compressChars_joined]
  apply tidy_of_lines
  intro present line member
  have some : trimLines ((stripComments .code code).splitOn '\n') ≠ [] := by
    intro none
    rw [none] at present
    exact present rfl
  have whole : ∀ line ∈ trimLines ((stripComments .code code).splitOn '\n'), '\n' ∉ line :=
    fun _ among => (trimLines_member among).2.1
  rw [joinWith_eq_intercalate, List.splitOn_intercalate '\n' whole some] at member
  obtain ⟨nonempty, _, last⟩ := trimLines_member member
  exact ⟨nonempty, last⟩

/-- Compressing loses only comments and blanks and adds nothing, and its result is tidy. -/
theorem compressing_keeps_code (code : String) :
    ∃ ps, (∀ qs, Splits code.toList qs ↔ qs = ps) ∧
      solid (compress code).toList = solid (outside ps) ∧ Tidy (compress code).toList := by
  obtain ⟨ps, only⟩ := splits_exactly_one code.toList
  have splits := (only ps).mpr rfl
  have text : (compress code).toList = compressChars code.toList := String.toList_ofList
  refine ⟨ps, only, ?_, ?_⟩
  · rw [text, compressChars_settled splits, solid_withoutLineStart, solid_settle, solid_remains]
  · rw [text]
    exact compressChars_tidy code.toList

/-- Marks share no character, quotes mean nothing in a comment and marks nothing in a string. -/
example : compress "a(*)\"*)b \n\n \"(*\" " = "ab\n \"(*\"" := by cbv

end TypedContracts.Source
