import TypedContracts.Proofs.Source.Compressed

/-!
String literals in a compressed text. Lines are trimmed whether or not they end inside a literal, so
a literal loses each blank right before one of its line ends, and a line end is such a blank too. It
stands in its place with all its other characters, and unchanged just if it has no such blank.
-/
namespace TypedContracts.Text

def InOrder : List (List Char) → List Char → Prop
  | [], _ => True
  | part :: parts, text => ∃ gap rest, text = gap ++ part ++ rest ∧ InOrder parts rest

theorem inOrder_behind (gap : List Char) {parts : List (List Char)} {text : List Char}
    (inOrder : InOrder parts text) : InOrder parts (gap ++ text) := by
  cases parts with
  | nil => trivial
  | cons part parts =>
    obtain ⟨before, rest, same, later⟩ := inOrder
    exact ⟨gap ++ before, rest, by simp [same], later⟩

theorem inOrder_member {parts : List (List Char)} : ∀ {text : List Char}, InOrder parts text →
    ∀ part ∈ parts, part <:+: text := by
  induction parts with
  | nil => simp
  | cons first parts ih =>
    intro text inOrder part member
    obtain ⟨gap, rest, same, later⟩ := inOrder
    rcases List.mem_cons.mp member with here | among
    · exact ⟨gap, rest, by rw [here, same]⟩
    · have behind : rest <:+: text := ⟨gap ++ first, [], by simp [same]⟩
      exact (ih later part among).trans behind

end TypedContracts.Text

namespace TypedContracts.Source
open TypedContracts.Text

def quoted (body : List Char) : List Char := '"' :: body ++ ['"']

def Piece.literal? : Piece → Option (List Char)
  | .plain _ => none
  | .literal body => some body
  | .comment _ => none
  | .unclosed _ => none

def literals (ps : List Piece) : List (List Char) := ps.filterMap Piece.literal?

theorem settle_quoted_text (body cs : List Char) :
    settle (quoted body ++ cs) = quoted (settleInside body) ++ settle cs := by
  have quoteSolid : isBlank '"' = false := by decide
  simp only [quoted, List.cons_append, List.append_assoc, List.nil_append]
  rw [settle_solid quoteSolid, settle_before_quote]

theorem settled_in_order (ps : List Piece) :
    InOrder ((literals ps).map fun body => quoted (settleInside body))
      (settle (outside (remains ps))) := by
  induction ps with
  | nil => trivial
  | cons p ps ih =>
    have behind : ∀ cs, InOrder ((literals ps).map fun body => quoted (settleInside body))
        (settle (cs ++ outside (remains ps))) := by
      intro cs
      obtain ⟨kept, same⟩ := settle_append cs (outside (remains ps))
      rw [same]
      exact inOrder_behind kept ih
    rw [remains_cons, outside_append]
    cases p with
    | plain c => exact behind _
    | literal body =>
      have text : outside (Piece.remains (.literal body)) = quoted body := by
        simp [Piece.remains, outside, Piece.outside, quoted]
      rw [text, settle_quoted_text]
      exact ⟨[], _, rfl, ih⟩
    | comment inside => exact behind _
    | unclosed inside => exact behind _

theorem inOrder_withoutLineStart {bodies : List (List Char)} {text : List Char}
    (inOrder : InOrder (bodies.map quoted) text) :
    InOrder (bodies.map quoted) (withoutLineStart text) := by
  cases bodies with
  | nil => trivial
  | cons body bodies =>
    obtain ⟨gap, rest, same, later⟩ := inOrder
    have front : text = gap ++ '"' :: (body ++ '"' :: rest) := by simp [same, quoted]
    refine ⟨withoutLineStart gap, rest, ?_, later⟩
    rw [front, withoutLineStart_before_quote]
    simp [quoted]

section Compressed
variable {code : List Char} {ps : List Piece}

theorem compressed_in_order (splits : Splits code ps) :
    InOrder ((literals ps).map fun body => quoted (settleInside body)) (compressChars code) := by
  have inOrder := settled_in_order ps
  have parts : (literals ps).map (fun body => quoted (settleInside body)) =
      ((literals ps).map settleInside).map quoted := by
    rw [List.map_map]
    rfl
  rw [compressChars_settled splits, parts]
  rw [parts] at inOrder
  exact inOrder_withoutLineStart inOrder

theorem compressed_not_loose (splits : Splits code ps) : ¬Loose (compressChars code) := by
  rw [compressChars_settled splits]
  intro loose
  exact settle_not_loose _ (loose_of_part (withoutLineStart_suffix _).isInfix loose)

theorem compressed_literal (splits : Splits code ps) {before after : List Piece} {body : List Char}
    (here : ps = before ++ .literal body :: after) : ∃ left right,
      compressChars code = left ++ quoted (settleInside body) ++ right ∧
        solid left = solid (outside before) ∧ solid right = solid (outside after) := by
  have text : outside (remains ps) =
      outside (remains before) ++ '"' :: (body ++ '"' :: outside (remains after)) := by
    simp [here, remains, outside, Piece.remains, Piece.outside]
  refine ⟨withoutLineStart (settleInside (outside (remains before))),
    settle (outside (remains after)), ?_, ?_, ?_⟩
  · rw [compressChars_settled splits, text, settle_before_quote, settle_before_quote,
      withoutLineStart_before_quote]
    simp [quoted]
  · rw [solid_withoutLineStart, solid_settleInside, solid_remains]
  · rw [solid_settle, solid_remains]

theorem literal_kept_iff (splits : Splits code ps) {body : List Char}
    (member : body ∈ literals ps) : quoted body <:+: compressChars code ↔ ¬Loose body := by
  constructor
  · intro inside loose
    have within : body <:+: quoted body := ⟨['"'], ['"'], rfl⟩
    exact compressed_not_loose splits (loose_of_part (within.trans inside) loose)
  · intro tight
    have among := inOrder_member (compressed_in_order splits) (quoted (settleInside body))
      (List.mem_map_of_mem member)
    rwa [(settleInside_eq_iff body).mpr tight] at among

end Compressed

/-- Each literal stands in its place, less the blanks before its line ends, and a literal is found
unchanged exactly if it has none. All are kept in their order exactly if none of them has one. -/
theorem literals_kept_iff (code : String) : ∃ ps, (∀ qs, Splits code.toList qs ↔ qs = ps) ∧
    InOrder ((literals ps).map fun body => quoted (settleInside body)) (compress code).toList ∧
    (∀ before body after, ps = before ++ .literal body :: after → ∃ left right,
      (compress code).toList = left ++ quoted (settleInside body) ++ right ∧
        solid left = solid (outside before) ∧ solid right = solid (outside after)) ∧
    (∀ body ∈ literals ps, (quoted body <:+: (compress code).toList ↔ ¬Loose body)) ∧
    (InOrder ((literals ps).map quoted) (compress code).toList ↔
      ∀ body ∈ literals ps, ¬Loose body) := by
  have text : (compress code).toList = compressChars code.toList := String.toList_ofList
  obtain ⟨ps, only⟩ := splits_exactly_one code.toList
  have splits := (only ps).mpr rfl
  rw [text]
  refine ⟨ps, only, compressed_in_order splits, ?_, ?_, ?_⟩
  · intro before body after here
    exact compressed_literal splits here
  · intro body member
    exact literal_kept_iff splits member
  · constructor
    · intro inOrder body member
      exact (literal_kept_iff splits member).mp
        (inOrder_member inOrder (quoted body) (List.mem_map_of_mem member))
    · intro tight
      have same : ((literals ps).map fun body => quoted (settleInside body)) =
          (literals ps).map quoted := by
        refine List.map_congr_left ?_
        intro body member
        rw [(settleInside_eq_iff body).mpr (tight body member)]
      rw [← same]
      exact compressed_in_order splits

/-- A blank at the end of a line within a literal is lost. -/
theorem literal_loses_blank : ¬∀ (code : String) (ps : List Piece), Splits code.toList ps →
    InOrder ((literals ps).map quoted) (compress code).toList := by
  intro verbatim
  have splits : Splits ['"', 'a', ' ', '\n', 'b', '"'] [.literal ['a', ' ', '\n', 'b']] :=
    @Splits.literal ['a', ' ', '\n', 'b'] [] []
      (.plain (by decide) (by decide) (.plain (by decide) (by decide)
        (.plain (by decide) (by decide) (.plain (by decide) (by decide) .nil)))) .nil
  have loose : Loose ['a', ' ', '\n', 'b'] := ⟨['a'], ' ', ['b'], rfl, by decide⟩
  have inOrder := verbatim (String.ofList ['"', 'a', ' ', '\n', 'b', '"']) _
    (by rw [String.toList_ofList]; exact splits)
  have member : ['a', ' ', '\n', 'b'] ∈ literals [.literal ['a', ' ', '\n', 'b']] :=
    List.mem_singleton.mpr rfl
  have inside := inOrder_member inOrder _ (List.mem_map_of_mem member)
  rw [compress, String.toList_ofList, String.toList_ofList] at inside
  exact (literal_kept_iff splits member).mp inside loose

end TypedContracts.Source
