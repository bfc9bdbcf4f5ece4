import TypedContracts.Proofs.Source.Compressed

/-!
Where compressing brings a mark of a comment into being. It leaves nothing of a comment within a
line, so a parenthesis before such comments and a star behind them are adjacent afterwards. This is
the only way: all pieces of a compressed text are code unless it happens.
-/
namespace TypedContracts.Source
open TypedContracts.Text

def Piece.IsCode : Piece → Prop
  | .plain _ => True
  | .literal _ => True
  | .comment _ => False
  | .unclosed _ => False

/-- Every comment is closed and no literal goes over the end of a line. -/
structure Regular (ps : List Piece) : Prop where
  closed : ∀ inside, .unclosed inside ∉ ps
  oneLine : ∀ body, .literal body ∈ ps → '\n' ∉ body

/-- A comment that is not closed has nothing behind it. -/
def Ending (ps : List Piece) : Prop :=
  ∀ inside rest, (.unclosed inside :: rest) <:+ ps → rest = []

/-- A comment that compressing leaves nothing of. -/
def Vanishing (p : Piece) : Prop := ∃ inside, p = .comment inside ∧ '\n' ∉ inside

def Meets (q : Piece) (ps : List Piece) : Prop :=
  ∃ comments after, ps = comments ++ q :: after ∧ comments ≠ [] ∧ ∀ p ∈ comments, Vanishing p

/-- Somewhere only vanishing comments part `p` from `q`. -/
def Parted (p q : Piece) (ps : List Piece) : Prop :=
  ∃ before rest, ps = before ++ p :: rest ∧ Meets q rest

def MakesMark (ps : List Piece) : Prop := Parted (.plain '(') (.plain '*') ps

theorem Regular.tail {p : Piece} {ps : List Piece} (regular : Regular (p :: ps)) : Regular ps :=
  ⟨fun inside member => regular.closed inside (List.mem_cons_of_mem p member),
    fun body member => regular.oneLine body (List.mem_cons_of_mem p member)⟩

theorem Regular.ending {ps : List Piece} (regular : Regular ps) : Ending ps := by
  intro inside rest suffix
  exact absurd (suffix.subset List.mem_cons_self) (regular.closed inside)

theorem Ending.tail {p : Piece} {ps : List Piece} (ending : Ending (p :: ps)) : Ending ps :=
  fun inside rest suffix => ending inside rest (suffix.trans (List.suffix_cons p ps))

theorem Ending.cons {p : Piece} {ps : List Piece} (closed : ∀ inside, p ≠ .unclosed inside)
    (ending : Ending ps) : Ending (p :: ps) := by
  intro inside rest suffix
  rcases List.suffix_cons_iff.mp suffix with whole | later
  · exact absurd (List.cons.inj whole).1.symm (closed inside)
  · exact ending inside rest later

theorem splits_ending {cs : List Char} {ps : List Piece} (splits : Splits cs ps) : Ending ps := by
  induction splits with
  | nil =>
    intro inside rest suffix
    simp at suffix
  | plain _ _ _ ih => exact ih.cons (by simp)
  | literal _ _ ih => exact ih.cons (by simp)
  | dangling _ =>
    intro inside rest suffix
    have member := suffix.subset List.mem_cons_self
    simp at member
  | comment _ _ ih => exact ih.cons (by simp)
  | unclosed _ =>
    intro inside rest suffix
    rcases List.suffix_cons_iff.mp suffix with whole | later
    · exact (List.cons.inj whole).2
    · simp at later

theorem meets_cons (q p : Piece) (ps : List Piece) :
    Meets q (p :: ps) ↔ Vanishing p ∧ (ps.head? = some q ∨ Meets q ps) := by
  constructor
  · intro meets
    obtain ⟨comments, after, same, present, all⟩ := meets
    cases comments with
    | nil => exact absurd rfl present
    | cons first comments =>
      obtain ⟨equal, rest⟩ := List.cons.inj same
      subst equal
      refine ⟨all p List.mem_cons_self, ?_⟩
      cases comments with
      | nil => exact .inl (by simp [rest])
      | cons second comments =>
        exact .inr ⟨second :: comments, after, rest, by simp,
          fun x member => all x (List.mem_cons_of_mem p member)⟩
  · intro both
    obtain ⟨vanishing, next⟩ := both
    rcases next with first | later
    · obtain ⟨after, same⟩ := List.head?_eq_some_iff.mp first
      exact ⟨[p], after, by simp [same], by simp, by simpa using vanishing⟩
    · obtain ⟨comments, after, same, _, all⟩ := later
      refine ⟨p :: comments, after, by simp [same], by simp, ?_⟩
      intro x member
      rcases List.mem_cons.mp member with equal | among
      · rw [equal]
        exact vanishing
      · exact all x among

theorem meets_nil (q : Piece) : ¬Meets q [] := by
  intro meets
  obtain ⟨comments, after, same, _⟩ := meets
  simp at same

theorem parted_cons (p q x : Piece) (ps : List Piece) :
    Parted p q (x :: ps) ↔ (x = p ∧ Meets q ps) ∨ Parted p q ps := by
  constructor
  · intro parted
    obtain ⟨before, rest, same, meets⟩ := parted
    cases before with
    | nil =>
      obtain ⟨equal, later⟩ := List.cons.inj same
      subst later
      exact .inl ⟨equal, meets⟩
    | cons y before => exact .inr ⟨before, rest, (List.cons.inj same).2, meets⟩
  · intro either
    rcases either with ⟨equal, meets⟩ | ⟨before, rest, same, meets⟩
    · exact ⟨[], ps, by simp [equal], meets⟩
    · exact ⟨x :: before, rest, by simp [same], meets⟩

theorem parted_nil (p q : Piece) : ¬Parted p q [] := by
  intro parted
  obtain ⟨before, rest, same, _⟩ := parted
  simp at same

theorem meets_of_plain (q : Piece) (cs : List Char) : ¬Meets q (cs.map .plain) := by
  cases cs with
  | nil => exact meets_nil q
  | cons c cs => simp [meets_cons, Vanishing]

theorem parted_of_plain (p q : Piece) (cs : List Char) : ¬Parted p q (cs.map .plain) := by
  induction cs with
  | nil => exact parted_nil p q
  | cons c cs ih => simp [parted_cons, ih, meets_of_plain]

theorem lineEnds_cases (cs : List Char) :
    ('\n' ∉ cs ∧ lineEnds cs = []) ∨ ('\n' ∈ cs ∧ ∃ ds, lineEnds cs = '\n' :: ds) := by
  by_cases newline : '\n' ∈ cs
  · right
    refine ⟨newline, ?_⟩
    cases ends : lineEnds cs with
    | nil => exact absurd rfl (List.filter_eq_nil_iff.mp ends '\n' newline)
    | cons c ds =>
      have inside : c ∈ lineEnds cs := by simp [ends]
      have same : c = '\n' := by simpa using (List.mem_filter.mp inside).2
      exact ⟨ds, by rw [same]⟩
  · left
    refine ⟨newline, List.filter_eq_nil_iff.mpr ?_⟩
    intro c member same
    have equal : c = '\n' := by simpa using same
    rw [equal] at member
    exact newline member

theorem plain_code (cs : List Char) : ∀ p ∈ cs.map Piece.plain, p.IsCode := by
  intro p member
  obtain ⟨c, _, same⟩ := List.mem_map.mp member
  rw [← same]
  trivial

theorem remains_code (ps : List Piece) : ∀ p ∈ remains ps, p.IsCode := by
  intro p member
  obtain ⟨q, _, inside⟩ := List.mem_flatMap.mp member
  cases q with
  | plain c =>
    obtain rfl : p = .plain c := by simpa [Piece.remains] using inside
    trivial
  | literal body =>
    obtain rfl : p = .literal body := by simpa [Piece.remains] using inside
    trivial
  | comment text => exact plain_code _ p inside
  | unclosed text => exact plain_code _ p inside

theorem remains_head_iff {ps : List Piece} (ending : Ending ps) {d : Char} (solid : d ≠ '\n') :
    (remains ps).head? = some (.plain d) ↔
      ps.head? = some (.plain d) ∨ Meets (.plain d) ps := by
  induction ps with
  | nil => simp [remains, meets_nil]
  | cons p ps ih =>
    rw [remains_cons, meets_cons]
    cases p with
    | plain c => simp [Piece.remains, Vanishing]
    | literal body => simp [Piece.remains, Vanishing]
    | unclosed inside =>
      rw [ending inside ps List.suffix_rfl]
      rcases lineEnds_cases inside with ⟨_, nothing⟩ | ⟨_, ends, first⟩
      · simp [Piece.remains, Vanishing, nothing, remains]
      · simp [Piece.remains, Vanishing, first, solid.symm]
    | comment inside =>
      rcases lineEnds_cases inside with ⟨none, nothing⟩ | ⟨some, ends, first⟩
      · simp [Piece.remains, Vanishing, none, nothing, ih ending.tail]
      · simp [Piece.remains, Vanishing, some, first, solid.symm]

theorem outside_head {ps : List Piece} (code : ∀ p ∈ ps, p.IsCode) {c : Char} (quote : c ≠ '"') :
    (outside ps).head? = some c ↔ ps.head? = some (.plain c) := by
  cases ps with
  | nil => simp [outside]
  | cons p ps =>
    have first := code p List.mem_cons_self
    cases p with
    | plain d => simp [outside_cons, Piece.outside]
    | literal body => simp [outside_cons, Piece.outside, quote.symm]
    | comment inside => exact absurd first id
    | unclosed inside => exact absurd first id

theorem splits_head {cs : List Char} {ps : List Piece} (splits : Splits cs ps) {c : Char}
    (first : ps.head? = some (.plain c)) : cs.head? = some c := by
  cases splits with
  | nil => simp at first
  | plain => simpa using first
  | literal => simp at first
  | dangling => simpa using first
  | comment => simp at first
  | unclosed => simp at first

theorem splits_newline_iff (cs : List Char) (ps : List Piece) :
    Splits ('\n' :: cs) ps ↔ ∃ qs, ps = .plain '\n' :: qs ∧ Splits cs qs := by
  have mark : ¬Opening ('\n' :: cs) := by simp [opening_cons]
  exact splits_plain_iff (by decide) mark ps

theorem splits_lineEnds {cs : List Char} {ps : List Piece} (inside : List Char)
    (splits : Splits cs ps) : Splits (lineEnds inside ++ cs) ((lineEnds inside).map .plain ++ ps) := by
  induction inside with
  | nil => exact splits
  | cons c inside ih =>
    rw [lineEnds_cons]
    by_cases newline : c = '\n'
    · subst newline
      exact (splits_newline_iff _ _).mpr ⟨_, rfl, ih⟩
    · simpa [lineEnds, newline] using ih

theorem opens_remains_iff {ps : List Piece} (ending : Ending ps) :
    (outside (remains ps)).head? = some '*' ↔
      ps.head? = some (.plain '*') ∨ Meets (.plain '*') ps := by
  rw [outside_head (remains_code ps) (by decide), remains_head_iff ending (by decide)]

/-- If no mark comes about, what remains of the pieces are the pieces of the text that remains. -/
theorem splits_remains {cs : List Char} {ps : List Piece} (splits : Splits cs ps)
    (unmarked : ¬MakesMark ps) :
    Splits (outside (remains ps)) (remains ps) := by
  induction splits with
  | nil => exact .nil
  | @plain c cs ps quote mark rest ih =>
    obtain ⟨apart, others⟩ := not_or.mp (mt (parted_cons _ _ _ _).mpr unmarked)
    refine .plain quote ?_ (ih others)
    intro opening
    obtain ⟨parenthesis, ds, star⟩ := (opening_cons _ _).mp opening
    subst parenthesis
    have starred : (outside (remains ps)).head? = some '*' := congrArg List.head? star
    rcases (opens_remains_iff (splits_ending rest)).mp starred with first | meets
    · obtain ⟨after, text⟩ := List.head?_eq_some_iff.mp (splits_head rest first)
      exact mark ((opening_cons _ _).mpr ⟨rfl, after, text⟩)
    · exact apart ⟨rfl, meets⟩
  | @literal body cs ps inside rest ih =>
    obtain ⟨_, others⟩ := not_or.mp (mt (parted_cons _ _ _ _).mpr unmarked)
    have later := Splits.literal inside (ih others)
    simpa [remains_cons, outside_cons, Piece.remains, Piece.outside] using later
  | dangling endless =>
    rw [remains_plain, outside_plain]
    exact .dangling endless
  | @comment inside cs ps closes rest ih =>
    obtain ⟨_, others⟩ := not_or.mp (mt (parted_cons _ _ _ _).mpr unmarked)
    have later := splits_lineEnds inside (ih others)
    rw [remains_cons, Piece.remains, outside_append, outside_plain]
    exact later
  | @unclosed inside endless =>
    have last := splits_lineEnds inside .nil
    rw [remains_cons, Piece.remains, outside_append, outside_plain]
    exact last

/-- A blank before a line end goes also behind a backslash, which then takes the line end with it;
what is left is still the inside of a literal. -/
theorem settleInside_quoted {body : List Char} (quoted : Quoted body) :
    Quoted (settleInside body) := by
  induction quoted with
  | nil => exact .nil
  | plain quote backslash rest ih =>
    rw [settleInside]
    split
    · exact ih
    · exact .plain quote backslash ih
  | @escaped cs c rest ih =>
    have backslashStays : settleInside ('\\' :: c :: cs) = '\\' :: settleInside (c :: cs) := rfl
    rw [backslashStays, settleInside]
    split
    · rename_i dropped
      have first : (settleInside cs).head? = some '\n' := by
        simpa using (Bool.and_eq_true_iff.mp dropped).2
      obtain ⟨more, text⟩ := List.head?_eq_some_iff.mp first
      rw [text] at ih ⊢
      cases ih with
      | plain _ _ later => exact .escaped '\n' later
    · exact .escaped c ih

theorem settle_literal {body : List Char} (quoted : Quoted body) (cs : List Char) :
    ∃ kept, Quoted kept ∧ settle ('"' :: body ++ '"' :: cs) = '"' :: kept ++ '"' :: settle cs ∧
      ('\n' ∉ body → kept = body) := by
  have quoteSolid : isBlank '"' = false := by decide
  refine ⟨settleInside body, settleInside_quoted quoted, ?_, ?_⟩
  · rw [List.cons_append, settle_solid quoteSolid, settle_before_quote]
    rfl
  · intro oneLine
    exact (settleInside_eq_iff body).mpr (not_loose_of_one_line oneLine)

theorem settle_dangling {cs : List Char} (dangling : Dangling cs) : Dangling (settle cs) := by
  have backslashSolid : isBlank '\\' = false := by decide
  induction dangling with
  | nil => exact .nil
  | lone =>
    rw [settle_solid backslashSolid]
    exact .lone
  | @plain c cs quote backslash rest ih =>
    rcases settle_cases c cs with ⟨_, _, dropped⟩ | kept
    · rw [dropped]
      exact ih
    · rw [kept]
      exact .plain quote backslash ih
  | @escaped cs c rest ih =>
    rw [settle_solid backslashSolid]
    rcases settle_cases c cs with ⟨_, ends, dropped⟩ | kept
    · rw [dropped]
      -- The backslash now takes the line end with it, or nothing at all.
      cases later : settle cs with
      | nil => exact .lone
      | cons d ds =>
        rw [later] at ends ih
        obtain rfl : d = '\n' := by simpa [atLineEnd] using ends
        rcases dangling_cases ih with ⟨_, _, tail⟩ | ⟨backslash, _⟩
        · exact .escaped '\n' tail
        · exact absurd backslash (by decide)
    · rw [kept]
      exact .escaped c ih

theorem opening_not_code {cs : List Char} {ps : List Piece} (opening : Opening cs)
    (splits : Splits cs ps) : ¬∀ p ∈ ps, p.IsCode := by
  intro code
  cases splits with
  | nil => simp [Opening] at opening
  | plain _ mark => exact mark opening
  | literal => simp [opening_cons] at opening
  | dangling => simp [opening_cons] at opening
  | comment => exact code _ List.mem_cons_self
  | unclosed => exact code _ List.mem_cons_self

theorem code_behind {c : Char} (quote : c ≠ '"') {cs : List Char} {ps : List Piece}
    (splits : Splits (settle (c :: cs)) ps) (code : ∀ p ∈ ps, p.IsCode) :
    ∃ qs, Splits (settle cs) qs ∧ ∀ q ∈ qs, q.IsCode := by
  rcases settle_cases c cs with ⟨_, _, dropped⟩ | kept
  · rw [dropped] at splits
    exact ⟨ps, splits, code⟩
  · rw [kept] at splits
    by_cases opening : Opening (c :: settle cs)
    · exact absurd code (opening_not_code opening splits)
    · obtain ⟨qs, pieces, later⟩ := (splits_plain_iff quote opening ps).mp splits
      rw [pieces] at code
      exact ⟨qs, later, (List.forall_mem_cons.mp code).2⟩

theorem code_behind_lineEnds (inside : List Char) {cs : List Char} : ∀ {ps : List Piece},
    Splits (settle (lineEnds inside ++ cs)) ps → (∀ p ∈ ps, p.IsCode) →
      ∃ qs, Splits (settle cs) qs ∧ ∀ q ∈ qs, q.IsCode := by
  induction inside with
  | nil =>
    intro ps splits code
    exact ⟨ps, splits, code⟩
  | cons c inside ih =>
    intro ps splits code
    by_cases newline : c = '\n'
    · subst newline
      obtain ⟨qs, later, all⟩ := code_behind (by decide) splits code
      exact ih later all
    · rw [lineEnds_cons] at splits
      have nothing : lineEnds [c] = [] := by simp [lineEnds, newline]
      rw [nothing] at splits
      exact ih splits code

theorem unmarked_of_code {cs : List Char} {ps : List Piece} (splits : Splits cs ps) :
    ∀ {rs : List Piece}, Splits (settle (outside (remains ps))) rs →
      (∀ r ∈ rs, r.IsCode) → ¬MakesMark ps := by
  have starSolid : isBlank '*' = false := by decide
  have parenthesisSolid : isBlank '(' = false := by decide
  induction splits with
  | nil =>
    intro rs _ _
    exact parted_nil _ _
  | @plain c cs ps quote mark rest ih =>
    intro rs settled code marked
    have text : outside (remains (.plain c :: ps)) = c :: outside (remains ps) := rfl
    rw [text] at settled
    obtain ⟨qs, later, all⟩ := code_behind quote settled code
    rcases (parted_cons _ _ _ _).mp marked with ⟨parenthesis, meets⟩ | others
    -- With the comments gone the bracket meets the star, and the two open a comment.
    · have star := (opens_remains_iff (splits_ending rest)).mpr (.inr meets)
      obtain ⟨ds, starred⟩ := List.head?_eq_some_iff.mp star
      rw [Piece.plain.inj parenthesis, starred, settle_solid parenthesisSolid,
        settle_solid starSolid] at settled
      exact opening_not_code ((opening_cons _ _).mpr ⟨rfl, _, rfl⟩) settled code
    · exact ih later all others
  | @literal body cs ps inside rest ih =>
    intro rs settled code marked
    have text : outside (remains (.literal body :: ps)) =
        '"' :: body ++ '"' :: outside (remains ps) := by
      simp [remains_cons, outside_cons, Piece.remains, Piece.outside]
    obtain ⟨kept, still, trimmed, _⟩ := settle_literal inside (outside (remains ps))
    rw [text, trimmed] at settled
    obtain ⟨qs, pieces, later⟩ := (splits_literal_iff still _ rs).mp settled
    have others := ((parted_cons _ _ _ _).mp marked).resolve_left (by simp)
    rw [pieces] at code
    exact ih later (List.forall_mem_cons.mp code).2 others
  | dangling endless =>
    intro rs _ _
    exact parted_of_plain _ _ _
  | @comment inside cs ps closes rest ih =>
    intro rs settled code marked
    rw [remains_cons, Piece.remains, outside_append, outside_plain] at settled
    obtain ⟨qs, later, all⟩ := code_behind_lineEnds inside settled code
    have others := ((parted_cons _ _ _ _).mp marked).resolve_left (by simp)
    exact ih later all others
  | unclosed endless =>
    intro rs _ _
    simp [MakesMark, parted_cons, parted_nil]

theorem solid_marked (inside cs : List Char) :
    (solid cs).length < (solid ('(' :: '*' :: inside ++ cs)).length := by
  have parenthesisSolid : isBlank '(' = false := by decide
  rw [solid_append, List.length_append]
  simp [solid_cons, parenthesisSolid]

/-- A text has more in it than its code unless all of it is code. -/
theorem code_of_solid {cs : List Char} {ps : List Piece} (splits : Splits cs ps) :
    (solid (outside ps)).length ≤ (solid cs).length ∧
      ((solid (outside ps)).length = (solid cs).length → ∀ p ∈ ps, p.IsCode) := by
  induction splits with
  | nil => exact ⟨Nat.le_refl _, by simp⟩
  | @plain c cs ps quote mark rest ih =>
    obtain ⟨bound, code⟩ := ih
    have text : outside (.plain c :: ps) = [c] ++ outside ps := rfl
    have whole : c :: cs = [c] ++ cs := rfl
    rw [text, whole, solid_append, solid_append, List.length_append, List.length_append]
    refine ⟨by omega, ?_⟩
    intro same
    exact List.forall_mem_cons.mpr ⟨trivial, code (by omega)⟩
  | @literal body cs ps inside rest ih =>
    obtain ⟨bound, code⟩ := ih
    have text : outside (.literal body :: ps) = ('"' :: body ++ ['"']) ++ outside ps := rfl
    have whole : '"' :: body ++ '"' :: cs = ('"' :: body ++ ['"']) ++ cs := by simp
    rw [text, whole, solid_append _ (outside ps), solid_append _ cs, List.length_append,
      List.length_append]
    refine ⟨by omega, ?_⟩
    intro same
    exact List.forall_mem_cons.mpr ⟨trivial, code (by omega)⟩
  | @dangling cs endless =>
    rw [outside_plain]
    exact ⟨Nat.le_refl _, fun _ => plain_code ('"' :: cs)⟩
  | @comment inside cs ps closes rest ih =>
    have text : outside (.comment inside :: ps) = outside ps := rfl
    have whole : '(' :: '*' :: inside ++ '*' :: ')' :: cs =
        '(' :: '*' :: (inside ++ ['*', ')']) ++ cs := by simp
    -- The marks of a comment are no blanks, so some solid characters are lost with it.
    have more := solid_marked (inside ++ ['*', ')']) cs
    rw [text, whole]
    omega
  | @unclosed inside endless =>
    have more := solid_marked inside []
    have text : outside [.unclosed inside] = [] := rfl
    rw [List.append_nil] at more
    rw [text]
    omega

end TypedContracts.Source
