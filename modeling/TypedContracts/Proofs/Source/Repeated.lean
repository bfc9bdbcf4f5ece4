import TypedContracts.Proofs.Source.Tokens

/-!
Compressing a text that is compressed already. It changes nothing just if all of the text is code,
that is if the first time no mark of a comment came into being; else there is less of it afterwards.
-/
namespace TypedContracts.Source
open TypedContracts.Text

theorem remains_of_code {ps : List Piece} (code : ∀ p ∈ ps, p.IsCode) : remains ps = ps := by
  induction ps with
  | nil => rfl
  | cons p ps ih =>
    obtain ⟨first, rest⟩ := List.forall_mem_cons.mp code
    rw [remains_cons, ih rest]
    cases p with
    | plain c => rfl
    | literal body => rfl
    | comment inside => exact absurd first id
    | unclosed inside => exact absurd first id

theorem outside_of_code {cs : List Char} {ps : List Piece} (splits : Splits cs ps)
    (code : ∀ p ∈ ps, p.IsCode) : outside ps = cs := by
  induction splits with
  | nil => rfl
  | @plain c cs ps quote mark rest ih =>
    rw [outside_cons, ih (List.forall_mem_cons.mp code).2]
    rfl
  | @literal body cs ps inside rest ih =>
    rw [outside_cons, ih (List.forall_mem_cons.mp code).2]
    simp [Piece.outside]
  | dangling endless => exact outside_plain _
  | comment closes => exact absurd (code _ List.mem_cons_self) id
  | unclosed endless => exact absurd (code _ List.mem_cons_self) id

section Twice
variable {code : List Char} {ps qs : List Piece}

theorem compressed_code_iff (splits : Splits code ps) (compressed : Splits (compressChars code) qs) :
    (∀ q ∈ qs, q.IsCode) ↔ ¬MakesMark ps := by
  obtain ⟨rs, settled, -, sameCode⟩ :=
    behind_line_start asciiWord (compressChars_settled splits ▸ compressed)
  rw [← sameCode]
  constructor
  · exact unmarked_of_code splits settled
  · intro unmarked
    obtain ⟨found, again, all, -⟩ := settle_keeps_tokens asciiWord (splits_remains splits unmarked)
      (remains_code ps)
    rwa [splits_unique again rs settled]

theorem compress_of_code (compressed : Splits (compressChars code) qs)
    (all : ∀ q ∈ qs, q.IsCode) : compressChars (compressChars code) = compressChars code := by
  obtain ⟨ps, splits⟩ := splits_exists code
  have settled : settle (compressChars code) = compressChars code := by
    rw [compressChars_settled splits]
    exact settle_lineStart _
  have start : withoutLineStart (compressChars code) = compressChars code := by
    have first := (compressChars_tidy code).first
    generalize compressChars code = text at first
    cases text with
    | nil => rfl
    | cons c cs => exact if_neg (by simpa using first)
  rw [compressChars_settled compressed, remains_of_code all, outside_of_code compressed all, settled,
    start]

theorem solid_compress_again (compressed : Splits (compressChars code) qs)
    (marked : ¬∀ q ∈ qs, q.IsCode) :
    (solid (compressChars (compressChars code))).length < (solid (compressChars code)).length := by
  obtain ⟨bound, only⟩ := code_of_solid compressed
  rw [compressChars_settled compressed, solid_withoutLineStart, solid_settle, solid_remains]
  exact Nat.lt_of_le_of_ne bound (mt only marked)

end Twice

/-- Compressing again changes nothing exactly if all that is left is code, and that is so unless the
first time only comments within a line parted a parenthesis from a star. If they did, the comment
that then begins is lost the second time. -/
theorem compressing_again_iff (code : String) :
    ∃ ps qs, (∀ rs, Splits code.toList rs ↔ rs = ps) ∧
      (∀ rs, Splits (compress code).toList rs ↔ rs = qs) ∧
      (compress (compress code) = compress code ↔ ¬MakesMark ps) ∧
      ((∀ q ∈ qs, q.IsCode) ↔ ¬MakesMark ps) ∧
      (MakesMark ps → (solid (compress (compress code)).toList).length <
        (solid (compress code).toList).length) := by
  have text : ∀ s : String, (compress s).toList = compressChars s.toList :=
    fun _ => String.toList_ofList
  obtain ⟨ps, only⟩ := splits_exactly_one code.toList
  obtain ⟨qs, onlyLeft⟩ := splits_exactly_one (compress code).toList
  have compressed : Splits (compressChars code.toList) qs := text code ▸ (onlyLeft qs).mpr rfl
  have codeIff := compressed_code_iff ((only ps).mpr rfl) compressed
  have fewer : MakesMark ps → (solid (compress (compress code)).toList).length <
      (solid (compress code).toList).length := by
    intro marked
    rw [text, text]
    exact solid_compress_again compressed fun all => codeIff.mp all marked
  refine ⟨ps, qs, only, onlyLeft, ?_, codeIff, fewer⟩
  constructor
  · intro same marked
    have less := fewer marked
    rw [same] at less
    exact Nat.lt_irrefl _ less
  · intro unmarked
    have same := compress_of_code compressed (codeIff.mpr unmarked)
    rw [← String.toList_inj, text, text]
    exact same

/-- A comment between a parenthesis and a star leaves a mark, which opens a comment the next time. -/
theorem new_mark_opens_comment : ¬∀ code, compress (compress code) = compress code := by
  intro idempotent
  have once : compress "((**)*" = "(*" := by cbv
  have twice : compress "(*" = "" := by cbv
  have same := idempotent "((**)*"
  rw [once, twice] at same
  exact absurd same (by decide)

end TypedContracts.Source
