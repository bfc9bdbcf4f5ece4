import Mathlib
import TypedContracts.Source.Compressed

/-!
A source text as a row of pieces: characters of code, string literals and comments. What a comment
or a string extends to is said by relations between a text and what is left behind it; no depth is
counted here. Each text has exactly one row of pieces.
-/
namespace TypedContracts.Source

inductive Piece where
  | plain (c : Char)
  | literal (body : List Char)
  | comment (inside : List Char)
  /-- A comment that the text ends in. -/
  | unclosed (inside : List Char)
deriving DecidableEq, Repr

def Opening (cs : List Char) : Prop := ['(', '*'] <+: cs

def Closing (cs : List Char) : Prop := ['*', ')'] <+: cs

inductive Closes : List Char → List Char → Prop where
  | mark {rest : List Char} : Closes ('*' :: ')' :: rest) rest
  | nested {cs middle rest : List Char} (inner : Closes cs middle) (outer : Closes middle rest) :
      Closes ('(' :: '*' :: cs) rest
  | other {c : Char} {cs rest : List Char} (opening : ¬Opening (c :: cs))
      (closing : ¬Closing (c :: cs)) (later : Closes cs rest) : Closes (c :: cs) rest

/-- The inside of a string. A backslash takes the next character with it. -/
inductive Quoted : List Char → Prop where
  | nil : Quoted []
  | plain {c : Char} {cs : List Char} (quote : c ≠ '"') (backslash : c ≠ '\\') (rest : Quoted cs) :
      Quoted (c :: cs)
  | escaped {cs : List Char} (c : Char) (rest : Quoted cs) : Quoted ('\\' :: c :: cs)

/-- The text behind a double quote that no other one closes. -/
inductive Dangling : List Char → Prop where
  | nil : Dangling []
  | lone : Dangling ['\\']
  | plain {c : Char} {cs : List Char} (quote : c ≠ '"') (backslash : c ≠ '\\')
      (rest : Dangling cs) : Dangling (c :: cs)
  | escaped {cs : List Char} (c : Char) (rest : Dangling cs) : Dangling ('\\' :: c :: cs)

/-- A double quote that is never closed makes no literal; it stands for itself, and so does every
character behind it. -/
inductive Splits : List Char → List Piece → Prop where
  | nil : Splits [] []
  | plain {c : Char} {cs : List Char} {ps : List Piece} (quote : c ≠ '"')
      (mark : ¬Opening (c :: cs)) (rest : Splits cs ps) : Splits (c :: cs) (.plain c :: ps)
  | literal {body cs : List Char} {ps : List Piece} (inside : Quoted body) (rest : Splits cs ps) :
      Splits ('"' :: body ++ '"' :: cs) (.literal body :: ps)
  | dangling {cs : List Char} (endless : Dangling cs) :
      Splits ('"' :: cs) (('"' :: cs).map .plain)
  | comment {inside cs : List Char} {ps : List Piece}
      (closes : Closes (inside ++ '*' :: ')' :: cs) cs) (rest : Splits cs ps) :
      Splits ('(' :: '*' :: inside ++ '*' :: ')' :: cs) (.comment inside :: ps)
  | unclosed {inside : List Char} (endless : ∀ rest, ¬Closes inside rest) :
      Splits ('(' :: '*' :: inside) [.unclosed inside]

theorem opening_cons (c : Char) (cs : List Char) :
    Opening (c :: cs) ↔ c = '(' ∧ ∃ ds, cs = '*' :: ds := by
  cases cs with
  | nil => simp [Opening]
  | cons d ds => simp [Opening, eq_comm]

theorem closing_cons (c : Char) (cs : List Char) :
    Closing (c :: cs) ↔ c = '*' ∧ ∃ ds, cs = ')' :: ds := by
  cases cs with
  | nil => simp [Closing]
  | cons d ds => simp [Closing, eq_comm]

theorem closes_cases {cs rest : List Char} (closes : Closes cs rest) :
    cs = '*' :: ')' :: rest ∨
    (∃ ds middle, cs = '(' :: '*' :: ds ∧ Closes ds middle ∧ Closes middle rest) ∨
    (∃ d ds, cs = d :: ds ∧ ¬Opening cs ∧ ¬Closing cs ∧ Closes ds rest) := by
  cases closes with
  | mark => exact .inl rfl
  | nested inner outer => exact .inr (.inl ⟨_, _, rfl, inner, outer⟩)
  | other opening closing later => exact .inr (.inr ⟨_, _, rfl, opening, closing, later⟩)

theorem closes_unique {cs rest : List Char} (first : Closes cs rest) :
    ∀ other, Closes cs other → rest = other := by
  induction first with
  | mark =>
    intro other second
    rcases closes_cases second with same | ⟨ds, _, nested, _⟩ | ⟨d, ds, same, _, closing, _⟩
    · simpa using same
    · simp at nested
    · exact absurd ((closing_cons _ _).mpr ⟨rfl, _, rfl⟩) closing
  | nested inner outer innerUnique outerUnique =>
    intro other second
    rcases closes_cases second with closed | ⟨ds, middle, same, first, last⟩ |
      ⟨d, ds, same, opening, _⟩
    · simp at closed
    · obtain ⟨rfl⟩ : _ = ds := by simpa using same
      have met := innerUnique middle first
      subst met
      exact outerUnique other last
    · exact absurd ((opening_cons _ _).mpr ⟨rfl, _, rfl⟩) opening
  | other opening closing later unique =>
    intro other second
    rcases closes_cases second with same | ⟨ds, middle, same, _⟩ | ⟨d, ds, same, _, _, last⟩
    · rw [same] at closing
      exact absurd ((closing_cons _ _).mpr ⟨rfl, _, rfl⟩) closing
    · rw [same] at opening
      exact absurd ((opening_cons _ _).mpr ⟨rfl, _, rfl⟩) opening
    · obtain ⟨_, rfl⟩ := List.cons.inj same
      exact unique other last

theorem closes_inside {cs rest : List Char} (closes : Closes cs rest) :
    ∃ inside, cs = inside ++ '*' :: ')' :: rest := by
  induction closes with
  | mark => exact ⟨[], rfl⟩
  | nested inner outer innerEnd outerEnd =>
    obtain ⟨inside, first⟩ := innerEnd
    obtain ⟨more, second⟩ := outerEnd
    exact ⟨'(' :: '*' :: inside ++ '*' :: ')' :: more, by simp [first, second]⟩
  | @other c _ _ opening closing later lastEnd =>
    obtain ⟨inside, last⟩ := lastEnd
    exact ⟨c :: inside, by simp [last]⟩

theorem quoted_unique {body : List Char} (first : Quoted body) : ∀ {other cs ds : List Char},
    Quoted other → body ++ '"' :: cs = other ++ '"' :: ds → body = other ∧ cs = ds := by
  induction first with
  | nil =>
    intro other cs ds second same
    cases second with
    | nil => simpa using same
    | plain quote => exact absurd (List.cons.inj same).1.symm quote
    | escaped c => simp at same
  | plain quote backslash rest ih =>
    intro other cs ds second same
    cases second with
    | nil => exact absurd (List.cons.inj same).1 quote
    | plain _ _ last =>
      obtain ⟨equal, later⟩ := List.cons.inj same
      obtain ⟨bodies, rests⟩ := ih last later
      exact ⟨by rw [equal, bodies], rests⟩
    | escaped c => exact absurd (List.cons.inj same).1 backslash
  | escaped c rest ih =>
    intro other cs ds second same
    cases second with
    | nil => simp at same
    | plain _ backslash => exact absurd (List.cons.inj same).1.symm backslash
    | escaped d last =>
      obtain ⟨equal, later⟩ := List.cons.inj (List.cons.inj same).2
      obtain ⟨bodies, rests⟩ := ih last later
      exact ⟨by rw [equal, bodies], rests⟩

theorem dangling_cases {c : Char} {cs : List Char} (dangling : Dangling (c :: cs)) :
    (c ≠ '"' ∧ c ≠ '\\' ∧ Dangling cs) ∨
    (c = '\\' ∧ ∀ d ds, cs = d :: ds → Dangling ds) := by
  generalize same : c :: cs = text at dangling
  cases dangling with
  | nil => simp at same
  | lone =>
    obtain ⟨backslash, empty⟩ := List.cons.inj same
    exact .inr ⟨backslash, by simp [empty]⟩
  | plain quote backslash rest =>
    obtain ⟨rfl, rfl⟩ := List.cons.inj same
    exact .inl ⟨quote, backslash, rest⟩
  | escaped d rest =>
    obtain ⟨backslash, later⟩ := List.cons.inj same
    refine .inr ⟨backslash, ?_⟩
    intro e es equal
    rw [equal] at later
    obtain ⟨_, rfl⟩ := List.cons.inj later
    exact rest

theorem quoted_not_dangling {body : List Char} (quoted : Quoted body) (cs : List Char) :
    ¬Dangling (body ++ '"' :: cs) := by
  induction quoted with
  | nil =>
    intro dangling
    rcases dangling_cases dangling with ⟨quote, _⟩ | ⟨backslash, _⟩
    · exact quote rfl
    · exact absurd backslash (by decide)
  | plain quote backslash rest ih =>
    intro dangling
    rcases dangling_cases dangling with ⟨_, _, later⟩ | ⟨equal, _⟩
    · exact ih later
    · exact backslash equal
  | escaped c rest ih =>
    intro dangling
    rcases dangling_cases dangling with ⟨_, backslash, _⟩ | ⟨_, later⟩
    · exact backslash rfl
    · exact ih (later c _ rfl)

theorem quoted_or_dangling : ∀ cs : List Char,
    (∃ body rest, cs = body ++ '"' :: rest ∧ Quoted body) ∨ Dangling cs
  | [] => .inr .nil
  | [c] => by
    by_cases quote : c = '"'
    · exact .inl ⟨[], [], by simp [quote], .nil⟩
    by_cases backslash : c = '\\'
    · subst backslash
      exact .inr .lone
    · exact .inr (.plain quote backslash .nil)
  | c :: d :: cs => by
    by_cases quote : c = '"'
    · exact .inl ⟨[], d :: cs, by simp [quote], .nil⟩
    by_cases backslash : c = '\\'
    · subst backslash
      rcases quoted_or_dangling cs with ⟨body, rest, same, quoted⟩ | dangling
      · exact .inl ⟨'\\' :: d :: body, rest, by simp [same], .escaped d quoted⟩
      · exact .inr (.escaped d dangling)
    · rcases quoted_or_dangling (d :: cs) with ⟨body, rest, same, quoted⟩ | dangling
      · exact .inl ⟨c :: body, rest, by simp [same], .plain quote backslash quoted⟩
      · exact .inr (.plain quote backslash dangling)

theorem splits_cases {cs : List Char} {ps : List Piece} (splits : Splits cs ps) :
    (cs = [] ∧ ps = []) ∨
    (∃ c ds qs, cs = c :: ds ∧ c ≠ '"' ∧ ¬Opening cs ∧ ps = .plain c :: qs ∧ Splits ds qs) ∨
    (∃ body ds qs, cs = '"' :: body ++ '"' :: ds ∧ Quoted body ∧ ps = .literal body :: qs ∧
      Splits ds qs) ∨
    (∃ ds, cs = '"' :: ds ∧ Dangling ds ∧ ps = cs.map .plain) ∨
    (∃ inside ds qs, cs = '(' :: '*' :: inside ++ '*' :: ')' :: ds ∧
      Closes (inside ++ '*' :: ')' :: ds) ds ∧ ps = .comment inside :: qs ∧ Splits ds qs) ∨
    (∃ inside, cs = '(' :: '*' :: inside ∧ (∀ rest, ¬Closes inside rest) ∧
      ps = [.unclosed inside]) := by
  cases splits with
  | nil => exact .inl ⟨rfl, rfl⟩
  | plain quote mark rest => exact .inr (.inl ⟨_, _, _, rfl, quote, mark, rfl, rest⟩)
  | literal inside rest => exact .inr (.inr (.inl ⟨_, _, _, rfl, inside, rfl, rest⟩))
  | dangling endless => exact .inr (.inr (.inr (.inl ⟨_, rfl, endless, rfl⟩)))
  | comment closes rest =>
    exact .inr (.inr (.inr (.inr (.inl ⟨_, _, _, rfl, closes, rfl, rest⟩))))
  | unclosed endless => exact .inr (.inr (.inr (.inr (.inr ⟨_, rfl, endless, rfl⟩))))

theorem splits_nil_iff (ps : List Piece) : Splits [] ps ↔ ps = [] := by
  constructor
  · intro splits
    rcases splits_cases splits with ⟨_, nothing⟩ | ⟨_, _, _, same, _⟩ | ⟨_, _, _, same, _⟩ |
      ⟨_, same, _⟩ | ⟨_, _, _, same, _⟩ | ⟨_, same, _⟩
    · exact nothing
    all_goals simp at same
  · intro nothing
    rw [nothing]
    exact .nil

theorem splits_plain_iff {c : Char} {cs : List Char} (quote : c ≠ '"') (mark : ¬Opening (c :: cs))
    (ps : List Piece) : Splits (c :: cs) ps ↔ ∃ qs, ps = .plain c :: qs ∧ Splits cs qs := by
  constructor
  · intro splits
    rcases splits_cases splits with ⟨same, _⟩ | ⟨d, ds, qs, same, _, _, pieces, rest⟩ |
      ⟨_, _, _, same, _⟩ | ⟨_, same, _⟩ | ⟨_, _, _, same, _⟩ | ⟨_, same, _⟩
    · simp at same
    · obtain ⟨rfl, rfl⟩ := List.cons.inj same
      exact ⟨qs, pieces, rest⟩
    · exact absurd (List.cons.inj same).1 quote
    · exact absurd (List.cons.inj same).1 quote
    all_goals
      rw [same] at mark
      exact absurd ((opening_cons _ _).mpr ⟨rfl, _, rfl⟩) mark
  · intro both
    obtain ⟨qs, pieces, rest⟩ := both
    rw [pieces]
    exact .plain quote mark rest

theorem splits_literal_iff {body : List Char} (inside : Quoted body) (cs : List Char)
    (ps : List Piece) :
    Splits ('"' :: body ++ '"' :: cs) ps ↔ ∃ qs, ps = .literal body :: qs ∧ Splits cs qs := by
  constructor
  · intro splits
    rcases splits_cases splits with ⟨same, _⟩ | ⟨_, _, _, same, quote, _⟩ |
      ⟨other, ds, qs, same, also, pieces, rest⟩ | ⟨_, same, dangling, _⟩ | ⟨_, _, _, same, _⟩ |
      ⟨_, same, _⟩
    · simp at same
    · exact absurd (List.cons.inj same).1.symm quote
    · obtain ⟨bodies, rests⟩ := quoted_unique inside also (List.cons.inj same).2
      subst bodies rests
      exact ⟨qs, pieces, rest⟩
    · obtain ⟨_, later⟩ := List.cons.inj same
      rw [← later] at dangling
      exact absurd dangling (quoted_not_dangling inside cs)
    all_goals simp at same
  · intro both
    obtain ⟨qs, pieces, rest⟩ := both
    rw [pieces]
    exact .literal inside rest

theorem splits_dangling_iff {cs : List Char} (endless : Dangling cs) (ps : List Piece) :
    Splits ('"' :: cs) ps ↔ ps = ('"' :: cs).map .plain := by
  constructor
  · intro splits
    rcases splits_cases splits with ⟨same, _⟩ | ⟨_, _, _, same, quote, _⟩ |
      ⟨body, ds, _, same, quoted, _⟩ | ⟨_, _, _, pieces⟩ | ⟨_, _, _, same, _⟩ | ⟨_, same, _⟩
    · simp at same
    · exact absurd (List.cons.inj same).1.symm quote
    · obtain ⟨_, later⟩ := List.cons.inj same
      rw [later] at endless
      exact absurd endless (quoted_not_dangling quoted ds)
    · exact pieces
    all_goals simp at same
  · intro pieces
    rw [pieces]
    exact .dangling endless

theorem splits_comment_iff {inside cs : List Char}
    (closes : Closes (inside ++ '*' :: ')' :: cs) cs) (ps : List Piece) :
    Splits ('(' :: '*' :: inside ++ '*' :: ')' :: cs) ps ↔
      ∃ qs, ps = .comment inside :: qs ∧ Splits cs qs := by
  constructor
  · intro splits
    rcases splits_cases splits with ⟨same, _⟩ | ⟨_, _, _, _, _, mark, _⟩ | ⟨_, _, _, same, _⟩ |
      ⟨_, same, _⟩ | ⟨other, ds, qs, same, also, pieces, rest⟩ | ⟨other, same, endless, _⟩
    · simp at same
    · exact absurd ((opening_cons _ _).mpr ⟨rfl, _, rfl⟩) mark
    · simp at same
    · simp at same
    · have texts : inside ++ '*' :: ')' :: cs = other ++ '*' :: ')' :: ds :=
        (List.cons.inj (List.cons.inj same).2).2
      rw [← texts] at also
      have rests := closes_unique closes ds also
      subst rests
      have insides : inside = other := List.append_cancel_right texts
      subst insides
      exact ⟨qs, pieces, rest⟩
    · have texts : inside ++ '*' :: ')' :: cs = other := (List.cons.inj (List.cons.inj same).2).2
      rw [texts] at closes
      exact absurd closes (endless cs)
  · intro both
    obtain ⟨qs, pieces, rest⟩ := both
    rw [pieces]
    exact .comment closes rest

theorem splits_unclosed_iff {inside : List Char} (endless : ∀ rest, ¬Closes inside rest)
    (ps : List Piece) : Splits ('(' :: '*' :: inside) ps ↔ ps = [.unclosed inside] := by
  constructor
  · intro splits
    rcases splits_cases splits with ⟨same, _⟩ | ⟨_, _, _, _, _, mark, _⟩ | ⟨_, _, _, same, _⟩ |
      ⟨_, same, _⟩ | ⟨other, ds, _, same, closes, _⟩ | ⟨other, same, _, pieces⟩
    · simp at same
    · exact absurd ((opening_cons _ _).mpr ⟨rfl, _, rfl⟩) mark
    · simp at same
    · simp at same
    · have texts : inside = other ++ '*' :: ')' :: ds := (List.cons.inj (List.cons.inj same).2).2
      rw [← texts] at closes
      exact absurd closes (endless ds)
    · obtain ⟨_, later⟩ := List.cons.inj same
      obtain ⟨_, rfl⟩ := List.cons.inj later
      exact pieces
  · intro pieces
    rw [pieces]
    exact .unclosed endless

theorem splits_unique {cs : List Char} {ps : List Piece} (first : Splits cs ps) :
    ∀ qs, Splits cs qs → qs = ps := by
  induction first with
  | nil =>
    intro qs second
    exact (splits_nil_iff qs).mp second
  | plain quote mark rest ih =>
    intro qs second
    obtain ⟨rs, pieces, later⟩ := (splits_plain_iff quote mark qs).mp second
    rw [pieces, ih rs later]
  | literal inside rest ih =>
    intro qs second
    obtain ⟨rs, pieces, later⟩ := (splits_literal_iff inside _ qs).mp second
    rw [pieces, ih rs later]
  | dangling endless =>
    intro qs second
    exact (splits_dangling_iff endless qs).mp second
  | comment closes rest ih =>
    intro qs second
    obtain ⟨rs, pieces, later⟩ := (splits_comment_iff closes qs).mp second
    rw [pieces, ih rs later]
  | unclosed endless =>
    intro qs second
    exact (splits_unclosed_iff endless qs).mp second

theorem splits_exists (cs : List Char) : ∃ ps, Splits cs ps := by
  induction length : cs.length using Nat.strongRecOn generalizing cs with
  | ind n ih =>
    have shorter : ∀ ds : List Char, ds.length < n → ∃ qs, Splits ds qs :=
      fun ds less => ih ds.length less ds rfl
    cases cs with
    | nil => exact ⟨[], .nil⟩
    | cons c cs =>
      simp only [List.length_cons] at length
      by_cases quote : c = '"'
      · subst quote
        rcases quoted_or_dangling cs with ⟨body, rest, same, quoted⟩ | dangling
        · subst same
          simp only [List.length_append, List.length_cons] at length
          obtain ⟨qs, later⟩ := shorter rest (by omega)
          exact ⟨_, .literal quoted later⟩
        · exact ⟨_, .dangling dangling⟩
      by_cases mark : Opening (c :: cs)
      · obtain ⟨opening, ds, star⟩ := (opening_cons c cs).mp mark
        subst opening star
        by_cases closed : ∃ rest, Closes ds rest
        · obtain ⟨rest, closes⟩ := closed
          obtain ⟨inside, same⟩ := closes_inside closes
          subst same
          simp only [List.length_append, List.length_cons] at length
          obtain ⟨qs, later⟩ := shorter rest (by omega)
          exact ⟨_, .comment closes later⟩
        · exact ⟨_, .unclosed fun rest closes => closed ⟨rest, closes⟩⟩
      · obtain ⟨qs, later⟩ := shorter cs (by omega)
        exact ⟨_, .plain quote mark later⟩

theorem splits_exactly_one (cs : List Char) : ∃ ps, ∀ qs, Splits cs qs ↔ qs = ps := by
  obtain ⟨ps, splits⟩ := splits_exists cs
  refine ⟨ps, ?_⟩
  intro qs
  constructor
  · exact splits_unique splits qs
  · intro same
    rw [same]
    exact splits

end TypedContracts.Source
