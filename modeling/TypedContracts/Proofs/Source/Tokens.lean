import TypedContracts.Proofs.Source.Marks

/-!
The tokens of a source text, and which of them survive compressing. A comment is a separator like a
blank, but compressing leaves nothing of a comment within a line, so letters on its two sides run
together. Nowhere else do the tokens change, unless a mark of a comment comes into being.
-/
namespace TypedContracts.Source
open TypedContracts.Text

inductive Token where
  | word (letters : List Char)
  | literal (body : List Char)
  | symbol (c : Char)
deriving DecidableEq, Repr

section Words
variable (inWord : Char → Bool)

def isLetter (c : Char) : Bool := !isBlank c && inWord c

def startsWord : List Piece → Bool
  | .plain c :: _ => isLetter inWord c
  | _ => false

/-- One more letter in front of the tokens; whether it touches the first one. -/
def lengthen (c : Char) : Bool → List Token → List Token
  | true, .word cs :: ts => .word (c :: cs) :: ts
  | _, ts => .word [c] :: ts

/-- `inWord` says which characters make up words: letters, digits and the underscore. -/
def tokens : List Piece → List Token
  | [] => []
  | .plain c :: ps =>
    if isBlank c then tokens ps
    else if inWord c then lengthen c (startsWord inWord ps) (tokens ps)
    else .symbol c :: tokens ps
  | .literal body :: ps => .literal body :: tokens ps
  | .comment _ :: ps => tokens ps
  | .unclosed _ :: ps => tokens ps

def GluesWords (ps : List Piece) : Prop :=
  ∃ c d, isLetter inWord c = true ∧ isLetter inWord d = true ∧ Parted (.plain c) (.plain d) ps

theorem tokens_blank {c : Char} (blank : isBlank c = true) (ps : List Piece) :
    tokens inWord (.plain c :: ps) = tokens inWord ps := by
  simp [tokens, blank]

/-- Two rows of pieces with the same tokens, also behind one more letter. -/
def SameTokens (ps qs : List Piece) : Prop :=
  tokens inWord ps = tokens inWord qs ∧ startsWord inWord ps = startsWord inWord qs

theorem sameTokens_cons {ps qs : List Piece} (p : Piece) (same : SameTokens inWord ps qs) :
    SameTokens inWord (p :: ps) (p :: qs) := by
  obtain ⟨equal, touching⟩ := same
  refine ⟨?_, ?_⟩
  · cases p <;> simp only [tokens, equal, touching]
  · cases p <;> rfl

theorem sameTokens_drop {c : Char} (blank : isBlank c = true) {ps qs : List Piece}
    (ends : startsWord inWord ps = false) (same : SameTokens inWord ps qs) :
    SameTokens inWord ps (.plain c :: qs) := by
  refine ⟨?_, ?_⟩
  · rw [tokens_blank inWord blank, same.1]
  · rw [ends]
    simp [startsWord, isLetter, blank]

theorem lineEnd_starts_no_word {cs : List Char} (ends : atLineEnd cs = true) {ps : List Piece}
    (first : ∀ ds, cs = '\n' :: ds → ps.head? = some (.plain '\n')) (nothing : cs = [] → ps = []) :
    startsWord inWord ps = false := by
  cases cs with
  | nil =>
    rw [nothing rfl]
    rfl
  | cons d ds =>
    obtain rfl : d = '\n' := by simpa [atLineEnd] using ends
    obtain ⟨rest, pieces⟩ := List.head?_eq_some_iff.mp (first ds rfl)
    simp [pieces, startsWord, isLetter]

theorem sameTokens_settle_plain (cs : List Char) :
    SameTokens inWord ((settle cs).map .plain) (cs.map .plain) := by
  induction cs with
  | nil => exact ⟨rfl, rfl⟩
  | cons c cs ih =>
    rcases settle_cases c cs with ⟨blank, ends, dropped⟩ | kept
    · rw [dropped]
      refine sameTokens_drop inWord blank (lineEnd_starts_no_word inWord ends ?_ ?_) ih
      · intro ds same
        simp [same]
      · intro same
        simp [same]
    · rw [kept]
      exact sameTokens_cons inWord (.plain c) ih

theorem opening_settled {c : Char} {cs : List Char} (opening : Opening (c :: settle cs)) :
    Opening (c :: cs) := by
  obtain ⟨parenthesis, ds, star⟩ := (opening_cons _ _).mp opening
  cases cs with
  | nil => simp [settle] at star
  | cons d cs =>
    rcases settle_cases d cs with ⟨_, ends, dropped⟩ | kept
    · rw [← dropped, star] at ends
      simp [atLineEnd] at ends
    · rw [kept] at star
      obtain ⟨rfl, _⟩ := List.cons.inj star
      exact (opening_cons _ _).mpr ⟨parenthesis, cs, rfl⟩

/-- Trimming leaves code that is code, with the same tokens unless a literal goes over the end of a
line. -/
theorem settle_keeps_tokens {cs : List Char} {ps : List Piece} (splits : Splits cs ps)
    (code : ∀ p ∈ ps, p.IsCode) :
    ∃ qs, Splits (settle cs) qs ∧ (∀ q ∈ qs, q.IsCode) ∧
      (Regular ps → SameTokens inWord qs ps) := by
  induction splits with
  | nil => exact ⟨[], .nil, by simp, fun _ => ⟨rfl, rfl⟩⟩
  | @plain c cs ps quote mark rest ih =>
    obtain ⟨qs, later, all, same⟩ := ih (List.forall_mem_cons.mp code).2
    rcases settle_cases c cs with ⟨blank, ends, dropped⟩ | kept
    -- A blank goes only where a line or the text ends, and no word goes on there.
    · rw [dropped]
      refine ⟨qs, later, all, fun regular => sameTokens_drop inWord blank ?_ (same regular.tail)⟩
      refine lineEnd_starts_no_word inWord ends ?_ ?_
      · intro ds newline
        rw [newline] at later
        obtain ⟨rs, pieces, _⟩ := (splits_newline_iff ds qs).mp later
        simp [pieces]
      · intro nothing
        rw [nothing] at later
        exact (splits_nil_iff qs).mp later
    · rw [kept]
      refine ⟨.plain c :: qs, .plain quote (mt opening_settled mark) later, ?_,
        fun regular => sameTokens_cons inWord (.plain c) (same regular.tail)⟩
      exact List.forall_mem_cons.mpr ⟨trivial, all⟩
  | @literal body cs ps inside rest ih =>
    obtain ⟨qs, later, all, same⟩ := ih (List.forall_mem_cons.mp code).2
    obtain ⟨kept, still, trimmed, whole⟩ := settle_literal inside cs
    rw [trimmed]
    refine ⟨.literal kept :: qs, .literal still later, ?_, ?_⟩
    · exact List.forall_mem_cons.mpr ⟨trivial, all⟩
    · intro regular
      rw [whole (regular.oneLine body List.mem_cons_self)]
      exact sameTokens_cons inWord (.literal body) (same regular.tail)
  | @dangling cs endless =>
    have quote : isBlank '"' = false := by decide
    refine ⟨('"' :: settle cs).map .plain, ?_, plain_code _,
      fun _ => sameTokens_cons inWord (.plain '"') (sameTokens_settle_plain inWord cs)⟩
    rw [settle_solid quote]
    exact .dangling (settle_dangling endless)
  | comment closes => exact absurd (code _ List.mem_cons_self) id
  | unclosed endless => exact absurd (code _ List.mem_cons_self) id

theorem startsWord_iff (ps : List Piece) : startsWord inWord ps = true ↔
    ∃ d, isLetter inWord d = true ∧ ps.head? = some (.plain d) := by
  cases ps with
  | nil => simp [startsWord]
  | cons p ps => cases p <;> simp [startsWord]

theorem letter_no_newline {d : Char} (letter : isLetter inWord d = true) : d ≠ '\n' := by
  intro newline
  simp [isLetter, newline] at letter

theorem remains_startsWord_iff {ps : List Piece} (regular : Regular ps) :
    startsWord inWord (remains ps) = true ↔ startsWord inWord ps = true ∨
      ∃ d, isLetter inWord d = true ∧ Meets (.plain d) ps := by
  rw [startsWord_iff, startsWord_iff, ← exists_or]
  apply exists_congr
  intro d
  rw [← and_or_left]
  apply and_congr_right
  intro letter
  exact remains_head_iff regular.ending (letter_no_newline inWord letter)

theorem tokens_lineEnds (inside : List Char) (ps : List Piece) :
    tokens inWord ((lineEnds inside).map .plain ++ ps) = tokens inWord ps := by
  induction inside with
  | nil => rfl
  | cons c inside ih =>
    rw [lineEnds_cons]
    by_cases newline : c = '\n' <;> simpa [lineEnds, newline, tokens] using ih

theorem startsWord_token {ps : List Piece} (starts : startsWord inWord ps = true) :
    ∃ cs ts, tokens inWord ps = .word cs :: ts := by
  obtain ⟨d, letter, first⟩ := (startsWord_iff inWord ps).mp starts
  obtain ⟨rest, pieces⟩ := List.head?_eq_some_iff.mp first
  obtain ⟨solid, within⟩ : isBlank d = false ∧ inWord d = true := by
    simpa [isLetter] using letter
  subst pieces
  simp only [tokens, solid, within, Bool.false_eq_true, ↓reduceIte]
  unfold lengthen
  split <;> exact ⟨_, _, rfl⟩

theorem length_lengthen (c : Char) (ps : List Piece) :
    (lengthen c (startsWord inWord ps) (tokens inWord ps)).length =
      (tokens inWord ps).length + if startsWord inWord ps then 0 else 1 := by
  cases starts : startsWord inWord ps with
  | false => rfl
  | true =>
    obtain ⟨cs, ts, first⟩ := startsWord_token inWord starts
    simp [first, lengthen]

theorem gluesWords_cons (p : Piece) (ps : List Piece) : GluesWords inWord (p :: ps) ↔
    (∃ c d, p = .plain c ∧ isLetter inWord c = true ∧ isLetter inWord d = true ∧
      Meets (.plain d) ps) ∨ GluesWords inWord ps := by
  constructor
  · intro glues
    obtain ⟨c, d, left, right, parted⟩ := glues
    rcases (parted_cons _ _ _ _).mp parted with ⟨here, meets⟩ | later
    · exact .inl ⟨c, d, here, left, right, meets⟩
    · exact .inr ⟨c, d, left, right, later⟩
  · intro either
    rcases either with ⟨c, d, here, left, right, meets⟩ | ⟨c, d, left, right, later⟩
    · exact ⟨c, d, left, right, (parted_cons _ _ _ _).mpr (.inl ⟨here, meets⟩)⟩
    · exact ⟨c, d, left, right, (parted_cons _ _ _ _).mpr (.inr later)⟩

theorem tokens_remains {ps : List Piece} (regular : Regular ps)
    (apart : ¬GluesWords inWord ps) : tokens inWord (remains ps) = tokens inWord ps := by
  induction ps with
  | nil => rfl
  | cons p ps ih =>
    rw [gluesWords_cons] at apart
    obtain ⟨here, later⟩ := not_or.mp apart
    have same := ih regular.tail later
    rw [remains_cons]
    cases p with
    | plain c =>
      by_cases letter : isLetter inWord c = true
      · have touching : startsWord inWord (remains ps) = startsWord inWord ps := by
          rw [Bool.eq_iff_iff, remains_startsWord_iff inWord regular.tail]
          apply or_iff_left
          intro meets
          obtain ⟨d, right, meets⟩ := meets
          exact here ⟨c, d, rfl, letter, right, meets⟩
        simp [Piece.remains, tokens, same, touching]
      · have shape : isBlank c = true ∨ inWord c = false := by
          simpa [isLetter, imp_iff_not_or] using letter
        rcases shape with blank | symbol
        · simp [Piece.remains, tokens, same, blank]
        · simp [Piece.remains, tokens, same, symbol]
    | literal body => simp [Piece.remains, tokens, same]
    | comment inside => rw [Piece.remains, tokens_lineEnds, same, tokens]
    | unclosed inside => rw [Piece.remains, tokens_lineEnds, same, tokens]

theorem meets_starts_no_word {q : Piece} {ps : List Piece} (meets : Meets q ps) :
    startsWord inWord ps = false := by
  cases ps with
  | nil => exact absurd meets (meets_nil q)
  | cons p ps =>
    obtain ⟨inside, comment, _⟩ := ((meets_cons q p ps).mp meets).1
    rw [comment]
    rfl

/-- Each place where words run together costs a token. -/
theorem fewer_tokens {ps : List Piece} (regular : Regular ps) :
    (tokens inWord (remains ps)).length ≤ (tokens inWord ps).length ∧
      (GluesWords inWord ps →
        (tokens inWord (remains ps)).length < (tokens inWord ps).length) := by
  induction ps with
  | nil =>
    refine ⟨Nat.le_refl _, ?_⟩
    intro glues
    obtain ⟨c, d, _, _, parted⟩ := glues
    exact absurd parted (parted_nil _ _)
  | cons p ps ih =>
    obtain ⟨bound, strict⟩ := ih regular.tail
    rw [gluesWords_cons, remains_cons]
    cases p with
    | plain c =>
      have starts := remains_startsWord_iff inWord regular.tail
      rw [Piece.remains, List.singleton_append]
      by_cases letter : isLetter inWord c = true
      · obtain ⟨solid, within⟩ : isBlank c = false ∧ inWord c = true := by
          simpa [isLetter] using letter
        simp only [tokens, solid, within, Bool.false_eq_true, ↓reduceIte, length_lengthen]
        -- Removing comments can only bring a word next to `c`, never take one away.
        cases touches : startsWord inWord ps with
        | true =>
          have stillTouches := starts.mpr (.inl touches)
          refine ⟨by simpa [stillTouches] using bound, ?_⟩
          intro glues
          rcases glues with ⟨_, d, _, _, _, meets⟩ | later
          · rw [meets_starts_no_word inWord meets] at touches
            exact absurd touches (by decide)
          · simpa [stillTouches] using strict later
        | false =>
          refine ⟨by split <;> simp <;> omega, ?_⟩
          intro glues
          rcases glues with ⟨_, d, _, _, right, meets⟩ | later
          · have nowTouches := starts.mpr (.inr ⟨d, right, meets⟩)
            simp only [nowTouches, ↓reduceIte, Bool.false_eq_true]
            omega
          · have fewer := strict later
            split <;> simp <;> omega
      · have noGlue : ¬∃ a d, Piece.plain c = .plain a ∧ isLetter inWord a = true ∧
            isLetter inWord d = true ∧ Meets (.plain d) ps := by
          intro glues
          obtain ⟨a, d, same, left, _⟩ := glues
          rw [Piece.plain.inj same] at letter
          exact letter left
        have shape : isBlank c = true ∨ inWord c = false := by
          simpa [isLetter, imp_iff_not_or] using letter
        rw [or_iff_right noGlue]
        rcases shape with blank | symbol
        · simpa [tokens, blank] using ⟨bound, strict⟩
        · cases blank : isBlank c with
          | true => simpa [tokens, blank] using ⟨bound, strict⟩
          | false => simpa [tokens, blank, symbol] using ⟨bound, strict⟩
    | literal body =>
      simpa [Piece.remains, tokens] using ⟨bound, strict⟩
    | comment inside =>
      rw [Piece.remains, tokens_lineEnds, tokens]
      simpa using ⟨bound, strict⟩
    | unclosed inside =>
      rw [Piece.remains, tokens_lineEnds, tokens]
      simpa using ⟨bound, strict⟩

def Token.text : Token → List Char
  | .word letters => letters
  | .literal body => '"' :: body ++ ['"']
  | .symbol c => [c]

theorem text_lengthen (c : Char) (touches : Bool) (ts : List Token) :
    (lengthen c touches ts).flatMap Token.text = c :: ts.flatMap Token.text := by
  unfold lengthen
  split <;> rfl

theorem solid_tokens (ps : List Piece) :
    solid ((tokens inWord ps).flatMap Token.text) = solid (outside ps) := by
  induction ps with
  | nil => rfl
  | cons p ps ih =>
    rw [outside_cons, solid_append, ← ih]
    cases p with
    | plain c =>
      simp only [Piece.outside, tokens]
      split
      · rename_i blank
        simp [solid, blank]
      · split
        · rw [text_lengthen]
          exact solid_append [c] _
        · exact solid_append [c] _
    | literal body => exact solid_append ('"' :: body ++ ['"']) _
    | comment inside => rfl
    | unclosed inside => rfl

theorem remains_regular {ps : List Piece} (regular : Regular ps) : Regular (remains ps) := by
  refine ⟨fun inside member => remains_code ps _ member, ?_⟩
  intro body member
  obtain ⟨p, among, inside⟩ := List.mem_flatMap.mp member
  have kept : .literal body ∈ ps := by cases p <;> simp_all [Piece.remains]
  exact regular.oneLine body kept

theorem behind_line_start {cs : List Char} {qs : List Piece}
    (splits : Splits (withoutLineStart cs) qs) : ∃ rs, Splits cs rs ∧
      tokens inWord rs = tokens inWord qs ∧ ((∀ r ∈ rs, r.IsCode) ↔ ∀ q ∈ qs, q.IsCode) := by
  cases cs with
  | nil => exact ⟨qs, splits, rfl, Iff.rfl⟩
  | cons c cs =>
    rw [withoutLineStart] at splits
    split at splits
    · rename_i newline
      subst newline
      refine ⟨.plain '\n' :: qs, (splits_newline_iff cs _).mpr ⟨qs, rfl, splits⟩,
        tokens_blank inWord (by decide) qs, ?_⟩
      exact List.forall_mem_cons.trans (and_iff_right trivial)
    · exact ⟨qs, splits, rfl, Iff.rfl⟩

theorem same_tokens_code {code : List Char} {ps qs : List Piece} (splits : Splits code ps)
    (compressed : Splits (compressChars code) qs) (same : tokens inWord qs = tokens inWord ps) :
    ∀ q ∈ qs, q.IsCode := by
  apply (code_of_solid compressed).2
  rw [← solid_tokens inWord qs, same, solid_tokens, compressChars_settled splits,
    solid_withoutLineStart, solid_settle, solid_remains]

/-- Compressing brings a mark of a comment into being exactly where a comment within a line parts a
parenthesis from a star, and it keeps the tokens exactly when it neither does that nor removes a
comment within a line that parts two words. -/
theorem compressed_tokens_iff (code : String) {ps : List Piece} (splits : Splits code.toList ps)
    (regular : Regular ps) : ∃ qs, (∀ rs, Splits (compress code).toList rs ↔ rs = qs) ∧
      ((∀ q ∈ qs, q.IsCode) ↔ ¬MakesMark ps) ∧
      (tokens inWord qs = tokens inWord ps ↔ ¬MakesMark ps ∧ ¬GluesWords inWord ps) := by
  have text : (compress code).toList = compressChars code.toList := String.toList_ofList
  obtain ⟨qs, only⟩ := splits_exactly_one (compress code).toList
  have compressed : Splits (compressChars code.toList) qs := text ▸ (only qs).mpr rfl
  obtain ⟨rs, settled, sameTokens, sameCode⟩ :=
    behind_line_start inWord (compressChars_settled splits ▸ compressed)
  have kept : ¬MakesMark ps → (∀ r ∈ rs, r.IsCode) ∧ tokens inWord rs = tokens inWord (remains ps) := by
    intro unmarked
    obtain ⟨found, again, code, same⟩ := settle_keeps_tokens inWord
      (splits_remains splits unmarked) (remains_code ps)
    rw [splits_unique again rs settled]
    exact ⟨code, (same (remains_regular regular)).1⟩
  have codeIff : (∀ q ∈ qs, q.IsCode) ↔ ¬MakesMark ps := by
    rw [← sameCode]
    exact ⟨unmarked_of_code splits settled, fun unmarked => (kept unmarked).1⟩
  refine ⟨qs, only, codeIff, ?_⟩
  constructor
  · intro same
    have unmarked := codeIff.mp (same_tokens_code inWord splits compressed same)
    refine ⟨unmarked, ?_⟩
    intro glues
    have fewer := (fewer_tokens inWord regular).2 glues
    rw [← (kept unmarked).2, sameTokens, same] at fewer
    exact absurd fewer (Nat.lt_irrefl _)
  · intro both
    obtain ⟨unmarked, apart⟩ := both
    rw [← sameTokens, (kept unmarked).2, tokens_remains inWord regular apart]

end Words

def asciiWord (c : Char) : Bool := c.isAlphanum || c == '_'

def nestedComment : List Char :=
  ['a', '(', '*', '(', '*', '*', ')', '\n', '*', ')', 'b', ' ', '"', '(', '*', '"']

def nestedCommentPieces : List Piece :=
  [.plain 'a', .comment ['(', '*', '*', ')', '\n'], .plain 'b', .plain ' ', .literal ['(', '*']]

theorem nestedComment_splits : Splits nestedComment nestedCommentPieces := by
  have last : Splits ['"', '(', '*', '"'] [.literal ['(', '*']] :=
    @Splits.literal ['(', '*'] [] [] (.plain (by decide) (by decide)
      (.plain (by decide) (by decide) .nil)) .nil
  have word : Splits ['b', ' ', '"', '(', '*', '"'] [.plain 'b', .plain ' ', .literal ['(', '*']] :=
    .plain (by decide) (by simp [opening_cons]) (.plain (by decide) (by simp [opening_cons]) last)
  have closes : Closes (['(', '*', '*', ')', '\n'] ++ '*' :: ')' :: ['b', ' ', '"', '(', '*', '"'])
      ['b', ' ', '"', '(', '*', '"'] :=
    .nested .mark (.other (by simp [opening_cons]) (by simp [closing_cons]) .mark)
  exact .plain (by decide) (by simp [opening_cons]) (.comment closes word)

theorem nested_comment_keeps_tokens :
    Splits (String.ofList nestedComment).toList nestedCommentPieces ∧ Regular nestedCommentPieces ∧
      ∃ qs, (∀ rs, Splits (compress (String.ofList nestedComment)).toList rs ↔ rs = qs) ∧
        (∀ q ∈ qs, q.IsCode) ∧
        tokens asciiWord qs = [.word ['a'], .word ['b'], .literal ['(', '*']] := by
  have splits : Splits (String.ofList nestedComment).toList nestedCommentPieces := by
    rw [String.toList_ofList]
    exact nestedComment_splits
  have regular : Regular nestedCommentPieces :=
    ⟨by simp [nestedCommentPieces], by simp [nestedCommentPieces]⟩
  have unmarked : ¬MakesMark nestedCommentPieces := by
    simp [nestedCommentPieces, MakesMark, parted_cons, parted_nil, meets_cons, meets_nil]
  have apart : ¬GluesWords asciiWord nestedCommentPieces := by
    simp [nestedCommentPieces, GluesWords, parted_cons, parted_nil, meets_cons, meets_nil, Vanishing]
  obtain ⟨qs, only, codeIff, sameIff⟩ :=
    compressed_tokens_iff asciiWord (String.ofList nestedComment) splits regular
  exact ⟨splits, regular, qs, only, codeIff.mpr unmarked, sameIff.mpr ⟨unmarked, apart⟩⟩

/-- Two words that only a comment parts are one word afterwards. -/
theorem comment_glues_words : ¬∀ (code : String) (ps qs : List Piece), Splits code.toList ps →
    Regular ps → Splits (compress code).toList qs → tokens asciiWord qs = tokens asciiWord ps := by
  intro keeps
  have closes : Closes (['x'] ++ '*' :: ')' :: ['b']) ['b'] :=
    .other (by simp [opening_cons]) (by simp [closing_cons]) .mark
  have word : Splits ['b'] [.plain 'b'] := .plain (by decide) (by simp [opening_cons]) .nil
  have splits : Splits ['a', '(', '*', 'x', '*', ')', 'b'] [.plain 'a', .comment ['x'], .plain 'b'] :=
    .plain (by decide) (by simp [opening_cons]) (.comment closes word)
  have compressed : compressChars ['a', '(', '*', 'x', '*', ')', 'b'] = ['a', 'b'] :=
    (compressChars_settled splits).trans (by decide)
  have glued : Splits ['a', 'b'] [.plain 'a', .plain 'b'] :=
    .plain (by decide) (by simp [opening_cons]) word
  have same := keeps (String.ofList ['a', '(', '*', 'x', '*', ')', 'b']) _ [.plain 'a', .plain 'b']
    (by rw [String.toList_ofList]; exact splits) ⟨by simp, by simp⟩
    (by rw [compress, String.toList_ofList, String.toList_ofList, compressed]; exact glued)
  exact absurd same (by decide)

end TypedContracts.Source
