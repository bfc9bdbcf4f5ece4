import TypedContracts.Proofs.Parts
import TypedContracts.Proofs.Source.Pieces
import TypedContracts.Proofs.Text.Words
import TypedContracts.Source.Library

/-!
The name of a library with its comments blanked. A library is read line by line, and comments are
text to that reading like anything else; so it matters where they stand. The name is kept if, in
the first line that begins with the keyword in one of the two readings, no comment stands before the
end of the second word.
-/
namespace TypedContracts.Source
open TypedContracts.Text

def named : List (List (List Char)) → List Char
  | [] => []
  | row :: rest => if keyword.isPrefixOf (row.headD []) then row[1]?.getD [] else named rest

theorem named_cons (row : List (List Char)) (rest : List (List (List Char))) : named (row :: rest) =
    if keyword.isPrefixOf (row.headD []) then row[1]?.getD [] else named rest := rfl

theorem keyword_solid : ∀ c ∈ keyword, isBlank c = false := by
  have all : keyword.all (fun c => !isBlank c) = true := by decide
  intro c member
  simpa using List.all_eq_true.mp all c member

theorem begins_iff (line : List Char) :
    keyword.isPrefixOf (trim line) = keyword.isPrefixOf ((words line).headD []) := by
  rw [Bool.eq_iff_iff, List.isPrefixOf_iff_prefix, List.isPrefixOf_iff_prefix]
  exact trim_prefix_iff keyword_solid line

theorem named_closeLines (ls : List (List Char)) :
    named ((closeLines ls).map words) = named (ls.map words) := by
  fun_induction closeLines ls with
  | case1 => rfl
  | case2 last empty =>
    obtain rfl : last = [] := List.isEmpty_iff.mp empty
    decide
  | case3 last present => rfl
  | case4 line next rest ih =>
    rw [List.map_cons, named_cons, words_dropReturn, ih]
    rfl

theorem libraryName_named (source : List Char) :
    libraryName source = named ((source.splitOn '\n').map words) := by
  rw [← named_closeLines, libraryName, lines, splitAt_eq_splitOnP, List.splitOn_eq_splitOnP]
  induction closeLines (source.splitOnP (· == '\n')) with
  | nil => rfl
  | cons line rest ih =>
    rw [List.map_cons, List.map_cons, named_cons, ← begins_iff, List.find?_cons]
    cases keyword.isPrefixOf (trim line) with
    | true => simp [words_trim]
    | false => simpa using ih

/-- A character of a source, and whether a comment covers it. -/
structure Glyph where
  char : Char
  covered : Bool
deriving DecidableEq, Repr

/-- A covered character gives way to a blank, unless it belongs to a line end. -/
def Glyph.blanked (g : Glyph) : Char :=
  if g.covered && g.char != '\n' && g.char != '\r' then ' ' else g.char

def Piece.glyphs : Piece → List Glyph
  | .plain c => [⟨c, false⟩]
  | .literal body => ('"' :: body ++ ['"']).map (⟨·, false⟩)
  | .comment inside => ('(' :: '*' :: inside ++ ['*', ')']).map (⟨·, true⟩)
  | .unclosed inside => ('(' :: '*' :: inside).map (⟨·, true⟩)

def glyphs (ps : List Piece) : List Glyph := ps.flatMap Piece.glyphs

def blanked (ps : List Piece) : List Char := (glyphs ps).map Glyph.blanked

def glyphLines (ps : List Piece) : List (List Glyph) := (glyphs ps).splitOnP (·.char == '\n')

def Begins (line : List Char) : Prop := keyword <+: trim line

instance (line : List Char) : Decidable (Begins line) := inferInstanceAs (Decidable (_ <+: _))

/-- In the first line that begins with the keyword in one of the two readings, no comment stands
before the end of the second word. -/
inductive NameClear : List (List Glyph) → Prop where
  | nil : NameClear []
  | passed {line : List Glyph} {rest : List (List Glyph)} (text : ¬Begins (line.map Glyph.char))
      (blank : ¬Begins (line.map Glyph.blanked)) (later : NameClear rest) :
      NameClear (line :: rest)
  | named {front back : List Glyph} {rest : List (List Glyph)}
      (begins : Begins (front.map Glyph.char)) (clear : ∀ g ∈ front, g.covered = false)
      (whole : back = [] ∨
        2 ≤ (words (front.map Glyph.char)).length ∧ ∀ g ∈ back.head?, isBlank g.char = true) :
      NameClear ((front ++ back) :: rest)

theorem glyphs_cons (p : Piece) (ps : List Piece) : glyphs (p :: ps) = p.glyphs ++ glyphs ps :=
  List.flatMap_cons

theorem glyphs_text {cs : List Char} {ps : List Piece} (splits : Splits cs ps) :
    (glyphs ps).map Glyph.char = cs := by
  induction splits with
  | nil => rfl
  | plain quote mark rest ih => simp [glyphs_cons, Piece.glyphs, ih]
  | literal inside rest ih => simp [glyphs_cons, Piece.glyphs, Function.comp_def, ih]
  | @dangling cs endless =>
    have plain : ∀ ds : List Char, (glyphs (ds.map .plain)).map Glyph.char = ds := by
      intro ds
      induction ds with
      | nil => rfl
      | cons d ds ih => simp [glyphs_cons, Piece.glyphs, ih]
    exact plain ('"' :: cs)
  | comment closes rest ih => simp [glyphs_cons, Piece.glyphs, Function.comp_def, ih]
  | unclosed endless => simp [glyphs, Piece.glyphs, Function.comp_def]

theorem blanked_newline (g : Glyph) : (g.blanked == '\n') = (g.char == '\n') := by
  unfold Glyph.blanked
  split
  · rename_i gone
    simp only [Bool.and_eq_true, bne_iff_ne] at gone
    simp [gone.1.2]
  · rfl

theorem text_lines (ps : List Piece) :
    ((glyphs ps).map Glyph.char).splitOn '\n' = (glyphLines ps).map (List.map Glyph.char) := by
  rw [List.splitOn_eq_splitOnP, Parts.splitOnP_map]
  rfl

theorem blanked_lines (ps : List Piece) :
    (blanked ps).splitOn '\n' = (glyphLines ps).map (List.map Glyph.blanked) := by
  rw [List.splitOn_eq_splitOnP, blanked, Parts.splitOnP_map]
  simp only [blanked_newline]
  rfl

theorem clear_blanked {line : List Glyph} (clear : ∀ g ∈ line, g.covered = false) :
    line.map Glyph.blanked = line.map Glyph.char := by
  refine List.map_congr_left ?_
  intro g member
  simp [Glyph.blanked, clear g member]

theorem head_append {α : Type} {first second : List (List α)} (present : first ≠ []) :
    (first ++ second).headD [] = first.headD [] := by
  cases first with
  | nil => exact absurd rfl present
  | cons w ws => rfl

theorem begins_present {line : List Char} (begins : Begins line) : words line ≠ [] := by
  intro nothing
  have first := (trim_prefix_iff keyword_solid line).mp begins
  rw [nothing] at first
  exact absurd (List.prefix_nil.mp first) (by decide)

theorem named_begins {line : List Char} (begins : Begins line) (rows : List (List (List Char))) :
    named (words line :: rows) = (words line)[1]?.getD [] := by
  rw [named_cons, ← begins_iff, if_pos (List.isPrefixOf_iff_prefix.mpr begins)]

theorem named_passed {line : List Char} (passed : ¬Begins line) (rows : List (List (List Char))) :
    named (words line :: rows) = named rows := by
  rw [named_cons, ← begins_iff, if_neg fun begins => passed (List.isPrefixOf_iff_prefix.mp begins)]

theorem named_front {front back : List Char} (begins : Begins front)
    (whole : back = [] ∨ 2 ≤ (words front).length ∧ ∀ c ∈ back.head?, isBlank c = true)
    (rows : List (List (List Char))) :
    named (words (front ++ back) :: rows) = (words front)[1]?.getD [] := by
  rcases whole with empty | ⟨two, apart⟩
  · rw [empty, List.append_nil, named_begins begins]
  · have kept : Begins (front ++ back) := by
      have first := (trim_prefix_iff keyword_solid front).mp begins
      refine (trim_prefix_iff keyword_solid _).mpr ?_
      rwa [words_append front apart, head_append (begins_present begins)]
    rw [named_begins kept, words_append front apart, List.getElem?_append_left (by omega)]

theorem blanked_blank {g : Glyph} (blank : isBlank g.char = true) : isBlank g.blanked = true := by
  unfold Glyph.blanked
  split
  · decide
  · exact blank

theorem apart_reading {f : Glyph → Char}
    (blanks : ∀ g, isBlank g.char = true → isBlank (f g) = true) {back : List Glyph}
    (apart : ∀ g ∈ back.head?, isBlank g.char = true) :
    ∀ c ∈ (back.map f).head?, isBlank c = true := by
  intro c first
  obtain ⟨g, head, same⟩ : ∃ g, back.head? = some g ∧ f g = c := by simpa using first
  rw [← same]
  exact blanks g (apart g head)

theorem named_of_clear {ls : List (List Glyph)} (clear : NameClear ls) :
    named (ls.map fun line => words (line.map Glyph.blanked)) =
      named (ls.map fun line => words (line.map Glyph.char)) := by
  induction clear with
  | nil => rfl
  | passed text blank later ih =>
    rw [List.map_cons, List.map_cons, named_passed text, named_passed blank, ih]
  | @named front back rest begins clear whole =>
    rw [List.map_cons, List.map_cons, List.map_append, List.map_append, clear_blanked clear]
    rcases whole with empty | ⟨two, apart⟩
    · rw [named_front begins (.inl (by simp [empty])), named_front begins (.inl (by simp [empty]))]
    · rw [named_front begins (.inr ⟨two, apart_reading (fun _ => blanked_blank) apart⟩),
        named_front begins (.inr ⟨two, apart_reading (fun _ blank => blank) apart⟩)]

theorem splits_letters (letters : List Char)
    (clean : letters.all (fun c => c != '"' && c != '(') = true) {cs : List Char} {ps : List Piece}
    (splits : Splits cs ps) :
    Splits (letters ++ cs) (letters.map .plain ++ ps) := by
  induction letters with
  | nil => exact splits
  | cons c letters ih =>
    obtain ⟨⟨quote, parenthesis⟩, later⟩ : (c ≠ '"' ∧ c ≠ '(') ∧
        letters.all (fun c => c != '"' && c != '(') = true := by
      simpa only [List.all_cons, Bool.and_eq_true, bne_iff_ne] using clean
    exact .plain quote (fun opening => parenthesis ((opening_cons c _).mp opening).1) (ih later)

theorem closes_letters {letters : List Char}
    (clean : letters.all (fun c => c != '(' && c != '*') = true) {cs rest : List Char}
    (closes : Closes cs rest) : Closes (letters ++ cs) rest := by
  induction letters with
  | nil => exact closes
  | cons c letters ih =>
    obtain ⟨⟨parenthesis, star⟩, later⟩ : (c ≠ '(' ∧ c ≠ '*') ∧
        letters.all (fun c => c != '(' && c != '*') = true := by
      simpa only [List.all_cons, Bool.and_eq_true, bne_iff_ne] using clean
    exact .other (fun opening => parenthesis ((opening_cons c _).mp opening).1)
      (fun closing => star ((closing_cons c _).mp closing).1) (ih later)

theorem splits_comment (inside : List Char)
    (clean : inside.all (fun c => c != '(' && c != '*') = true) {cs : List Char} {ps : List Piece}
    (splits : Splits cs ps) :
    Splits ('(' :: '*' :: inside ++ '*' :: ')' :: cs) (.comment inside :: ps) :=
  .comment (closes_letters clean .mark) splits

theorem library_kept_by_blanking {source : String} {ps : List Piece}
    (splits : Splits source.toList ps) (clear : NameClear (glyphLines ps)) :
    libraryOf (String.ofList (blanked ps)) = libraryOf source := by
  have same : libraryName (blanked ps) = libraryName source.toList := by
    rw [libraryName_named, libraryName_named, blanked_lines, ← glyphs_text splits, text_lines,
      List.map_map, List.map_map]
    exact named_of_clear clear
  rw [libraryOf, libraryOf, String.toList_ofList, same]

def sumsSource : String := "(* adds *)\nlibrary Sums (* sums *)\n"

def sumsPieces : List Piece :=
  .comment " adds ".toList :: "\nlibrary Sums ".toList.map .plain ++
    [.comment " sums ".toList, .plain '\n']

theorem sums_kept_by_blanking : Splits sumsSource.toList sumsPieces ∧
    NameClear (glyphLines sumsPieces) ∧
    libraryOf (String.ofList (blanked sumsPieces)) = libraryOf sumsSource ∧
    (libraryOf sumsSource).name = "Sums" := by
  have ending : Splits ['\n'] [.plain '\n'] := .plain (by decide) (by simp [opening_cons]) .nil
  have behind := splits_comment " sums ".toList (by decide) ending
  have splits : Splits sumsSource.toList sumsPieces :=
    splits_comment " adds ".toList (by decide)
      (splits_letters "\nlibrary Sums ".toList (by decide) behind)
  have declaration : NameClear [("library Sums".toList.map (⟨·, false⟩)) ++
      ⟨' ', false⟩ :: "(* sums *)".toList.map (⟨·, true⟩), []] :=
    .named (by decide) (by decide) (.inr ⟨by decide, by decide⟩)
  have clear : NameClear (glyphLines sumsPieces) := by
    have whole : glyphLines sumsPieces = ["(* adds *)".toList.map (⟨·, true⟩),
        ("library Sums".toList.map (⟨·, false⟩)) ++
          ⟨' ', false⟩ :: "(* sums *)".toList.map (⟨·, true⟩), []] := by decide
    rw [whole]
    exact .passed (by decide) (by decide) declaration
  exact ⟨splits, clear, library_kept_by_blanking splits clear, by decide⟩

/-- A line of a comment that begins with the keyword names the library. -/
theorem commented_line_names : ¬∀ (source : String) (ps : List Piece), Splits source.toList ps →
    (∀ p ∈ ps, ∀ inside, p ≠ .unclosed inside) →
    libraryName (blanked ps) = libraryName source.toList := by
  intro kept
  have behind := splits_letters "\nlibrary New\n".toList (by decide) .nil
  have splits := splits_comment "\nlibrary Old\n".toList (by decide) behind
  have same := kept "(*\nlibrary Old\n*)\nlibrary New\n" _ splits (by simp)
  exact absurd same (by decide)

/-- So does a comment between the keyword and the name. -/
example : libraryName "library (* old *) New".toList = "(*".toList := by decide

end TypedContracts.Source
