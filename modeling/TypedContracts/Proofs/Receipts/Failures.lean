import TypedContracts.Proofs.Json.Members
import TypedContracts.Proofs.Number.Digits
import TypedContracts.Proofs.Parts
import TypedContracts.Proofs.Text.Utf8
import TypedContracts.Receipts.Failures

/-!
The failures of a transaction: every group of codes of the receipt once, the shallowest first, and
groups of one depth in the order of the bytes of their keys. No mark of the summary occurs in the
text of a code, so the summary tells the codes and the groups apart, also the empty ones.
-/
namespace TypedContracts
open Json

def Numeral32 (key : String) (n : Nat) : Prop :=
  ∃ digits, (key.toList = digits ∨ key.toList = '+' :: digits) ∧ digits ≠ [] ∧
    (∀ d ∈ digits, Digits.isDecimal d = true) ∧ n = Digits.numeral 10 digits ∧ n < 2 ^ 32

/-- A key that is no such numeral stands for the greatest depth. -/
inductive Depth (key : String) : Nat → Prop where
  | numeral {n : Nat} (spelt : Numeral32 key n) : Depth key n
  | other (unspelt : ∀ n, ¬Numeral32 key n) : Depth key (2 ^ 32 - 1)

/-- Shallower, or as deep with the bytes of the key first. -/
def Shallower (a b : String × List Nat) : Prop :=
  ∃ m n, Depth a.1 m ∧ Depth b.1 n ∧
    (m < n ∨ m = n ∧ Text.Utf8.bytesOf a.1 < Text.Utf8.bytesOf b.1)

structure Ranked (errors groups : List (String × List Nat)) : Prop where
  each : groups.Perm errors
  inOrder : groups.Pairwise Shallower

theorem numeral_iff (key : String) (n : Nat) : Numeral32 key n ↔
    Digits.decimal? (Digits.withoutPlus key.toList) = some n ∧ n < 2 ^ 32 := by
  rw [decimal_some_iff]
  constructor
  · rintro ⟨digits, spelt, some, all, value, bound⟩
    have rest : Digits.withoutPlus key.toList = digits := by
      rcases spelt with bare | plus
      · rw [bare, withoutPlus_digits all]
      · rw [plus, Digits.withoutPlus]
    rw [rest]
    exact ⟨⟨some, all, value⟩, bound⟩
  · rintro ⟨⟨some, all, value⟩, bound⟩
    exact ⟨_, withoutPlus_cases key.toList, some, all, value, bound⟩

theorem depth_told (key : String) : Depth key (callDepth key) := by
  unfold callDepth
  split
  · rename_i n read
    by_cases fits : n < 2 ^ 32
    · rw [Nat.min_eq_left (by simp only [deepest, Word.count32]; omega)]
      exact .numeral ((numeral_iff key n).mpr ⟨read, fits⟩)
    · rw [Nat.min_eq_right (by simp only [deepest, Word.count32]; omega)]
      refine .other fun m spelt => ?_
      obtain ⟨same, bound⟩ := (numeral_iff key m).mp spelt
      rw [read, Option.some.injEq] at same
      exact fits (same ▸ bound)
  · rename_i read
    exact .other fun n spelt => by simp [numeral_iff, read] at spelt

theorem depth_unique {key : String} {m n : Nat} (first : Depth key m) (second : Depth key n) :
    m = n := by
  cases first with
  | numeral spelt =>
    cases second with
    | numeral also =>
      have values := ((numeral_iff key m).mp spelt).1.symm.trans ((numeral_iff key n).mp also).1
      exact Option.some.inj values
    | other unspelt => exact absurd spelt (unspelt m)
  | other unspelt =>
    cases second with
    | numeral also => exact absurd also (unspelt n)
    | other _ => rfl

theorem Shallower.asymm {a b : String × List Nat} (first : Shallower a b) : ¬Shallower b a := by
  obtain ⟨m, n, here, there, before⟩ := first
  rintro ⟨n', m', there', here', after⟩
  obtain rfl := depth_unique here here'
  obtain rfl := depth_unique there there'
  rcases before with less | ⟨rfl, less⟩ <;> rcases after with more | ⟨_, more⟩
  · omega
  · omega
  · omega
  · exact List.lt_asymm less more

theorem Ranked.unique {errors groups others : List (String × List Nat)}
    (first : Ranked errors groups) (second : Ranked errors others) : groups = others :=
  List.Perm.eq_of_pairwise (fun _ _ _ _ before after => absurd after before.asymm)
    first.inOrder second.inOrder (first.each.trans second.each.symm)

theorem failureGroups_perm (r : Receipt) : (failureGroups r).Perm r.errors :=
  List.mergeSort_perm _ _

theorem depth_le_trans (a b c : String × List Nat)
    (first : decide (callDepth a.1 ≤ callDepth b.1) = true)
    (second : decide (callDepth b.1 ≤ callDepth c.1) = true) :
    decide (callDepth a.1 ≤ callDepth c.1) = true := by
  rw [decide_eq_true_iff] at first second ⊢
  exact Nat.le_trans first second

theorem depth_le_total (a b : String × List Nat) :
    (decide (callDepth a.1 ≤ callDepth b.1) || decide (callDepth b.1 ≤ callDepth a.1)) = true := by
  simpa using Nat.le_total (callDepth a.1) (callDepth b.1)

theorem failureGroups_ascending (r : Receipt) :
    (failureGroups r).Pairwise fun a b => callDepth a.1 ≤ callDepth b.1 := by
  have sorted := List.pairwise_mergeSort depth_le_trans depth_le_total r.errors
  exact sorted.imp fun below => of_decide_eq_true below

theorem failureGroups_stable (r : Receipt) (depth : Nat) :
    (failureGroups r).filter (callDepth ·.1 == depth) =
      r.errors.filter (callDepth ·.1 == depth) := by
  have level : (r.errors.filter (callDepth ·.1 == depth)).Pairwise fun a b =>
      decide (callDepth a.1 ≤ callDepth b.1) = true := by
    refine List.pairwise_of_forall_mem_list fun a first b second => ?_
    have depths : callDepth a.1 = depth ∧ callDepth b.1 = depth :=
      ⟨by simpa using (List.mem_filter.mp first).2, by simpa using (List.mem_filter.mp second).2⟩
    simp [depths]
  have within := List.sublist_mergeSort depth_le_trans depth_le_total level List.filter_sublist
  have kept := within.filter (callDepth ·.1 == depth)
  rw [List.filter_filter] at kept
  simp only [Bool.and_self] at kept
  exact (kept.eq_of_length ((failureGroups_perm r).filter _).length_eq.symm).symm

theorem failureGroups_ranked {r : Receipt} (sorted : Sorted r.errors) :
    Ranked r.errors (failureGroups r) := by
  refine ⟨failureGroups_perm r, List.pairwise_iff_forall_sublist.mpr fun {a b} pair => ?_⟩
  refine ⟨_, _, depth_told a.1, depth_told b.1, ?_⟩
  have below := List.pairwise_iff_forall_sublist.mp (failureGroups_ascending r) pair
  rcases Nat.lt_or_eq_of_le below with less | level
  · exact .inl less
  · have kept := pair.filter (callDepth ·.1 == callDepth b.1)
    rw [failureGroups_stable] at kept
    have given : [a, b].Sublist r.errors := by
      simpa [level] using kept.trans List.filter_sublist
    have keys := List.pairwise_iff_forall_sublist.mp sorted given
    exact .inr ⟨level, Text.Utf8.bytesOf_less keys⟩

theorem failureText_chars (code : Nat) : (failureText code).toList =
    Digits.decimal code ++ ' ' :: ('(' :: (failureName code).toList ++ [')']) := by
  simp [failureText, Nat.toString_eq_repr, Nat.toList_repr, Digits.decimal]

theorem failureName_listed (code : Nat) : failureName code ∈ "UNKNOWN" :: failureNames := by
  unfold failureName
  cases found : failureNames[code]? with
  | some name => exact List.mem_cons_of_mem _ (List.mem_of_getElem? found)
  | none => exact List.mem_cons_self

theorem failureName_plain {code : Nat} {c : Char} (member : c ∈ (failureName code).toList) :
    c ≠ ' ' ∧ c ≠ ',' ∧ c ≠ ']' := by
  have plain : (("UNKNOWN" :: failureNames).all fun name =>
      name.toList.all fun c => c != ' ' && c != ',' && c != ']') = true := by
    decide +kernel
  have each := List.all_eq_true.mp plain _ (failureName_listed code)
  simpa [and_assoc] using List.all_eq_true.mp each c member

theorem failureText_plain {code : Nat} {c : Char} (member : c ∈ (failureText code).toList) :
    c ≠ ',' ∧ c ≠ ']' := by
  rw [failureText_chars, List.mem_append] at member
  rcases member with digit | later
  · have decimal := decimal_digits code c digit
    constructor <;> rintro rfl <;> exact absurd decimal (by decide)
  · simp only [List.cons_append, List.mem_cons, List.mem_append, List.not_mem_nil,
      or_false] at later
    rcases later with rfl | rfl | name | rfl
    · decide
    · decide
    · exact (failureName_plain name).2
    · decide

theorem failureText_injective : Function.Injective failureText := by
  intro m n same
  have chars := congrArg String.toList same
  have space (k : Nat) : ' ' ∉ Digits.decimal k :=
    fun member => absurd (decimal_digits k ' ' member) (by decide)
  have behind (k : Nat) : ' ' ∉ '(' :: (failureName k).toList ++ [')'] := by
    simpa using fun member => (failureName_plain member).1 rfl
  rw [failureText_chars, failureText_chars,
    List.append_cons_inj_of_notMem (space m) (behind m)] at chars
  exact decimal_injective chars.1

def groupText (codes : List Nat) : List Char :=
  [','].intercalate (codes.map fun code => (failureText code).toList)

theorem groupText_splits {codes : List Nat} (some : codes ≠ []) :
    (groupText codes).splitOn ',' = codes.map fun code => (failureText code).toList := by
  refine List.splitOn_intercalate ',' (fun text member => ?_) (by simpa using some)
  obtain ⟨code, _, rfl⟩ := List.mem_map.mp member
  exact fun comma => (failureText_plain comma).1 rfl

theorem texts_ne_empty (codes : List Nat) :
    (codes.map fun code => (failureText code).toList) ≠ [[]] := by
  intro single
  have member : [] ∈ codes.map fun code => (failureText code).toList := by simp [single]
  obtain ⟨code, _, empty⟩ := List.mem_map.mp member
  simp [failureText_chars] at empty

theorem groupText_injective : Function.Injective groupText := by
  have texts (codes : List Nat) : (groupText codes).splitOn ',' =
      if codes = [] then [[]] else codes.map fun code => (failureText code).toList := by
    split
    · rename_i empty
      rw [empty]
      rfl
    · rename_i some
      exact groupText_splits some
  have distinct : Function.Injective fun code => (failureText code).toList :=
    fun _ _ same => failureText_injective (String.toList_injective same)
  intro codes others same
  have both := (texts codes).symm.trans ((congrArg (List.splitOn ',') same).trans (texts others))
  split at both <;> split at both
  · simp_all
  · exact absurd both.symm (texts_ne_empty others)
  · exact absurd both (texts_ne_empty codes)
  · exact List.map_injective_iff.mpr distinct both

theorem groupText_unclosed (codes : List Nat) : ']' ∉ groupText codes := by
  have unclosed (code : Nat) : ']' ∉ (failureText code).toList :=
    fun bracket => (failureText_plain bracket).2 rfl
  induction codes with
  | nil => exact List.not_mem_nil
  | cons code codes ih =>
    cases codes with
    | nil => simpa [groupText] using unclosed code
    | cons next rest =>
      have later : ']' ∉ groupText (next :: rest) := ih
      rw [groupText, List.map_cons] at later ⊢
      rw [List.map_cons, List.intercalate_cons_cons]
      simp [unclosed, later]

def groupsText (groups : List (List Nat)) : List Char :=
  groups.flatMap fun codes => '[' :: (groupText codes ++ ']' :: [' '])

theorem groupsText_injective : Function.Injective groupsText := by
  intro groups others same
  induction groups generalizing others with
  | nil =>
    cases others with
    | nil => rfl
    | cons codes others => simp [groupsText] at same
  | cons codes groups ih =>
    cases others with
    | nil => simp [groupsText] at same
    | cons more others =>
      simp only [groupsText, List.flatMap_cons, List.cons_append, List.append_assoc,
        List.nil_append, List.cons.injEq, true_and] at same
      obtain ⟨first, rest⟩ := Parts.parted_unique (p := (· ≠ ']'))
        (fun c member => ne_of_mem_of_not_mem member (groupText_unclosed codes))
        (fun c member => ne_of_mem_of_not_mem member (groupText_unclosed more))
        (by simp) (by simp) same
      simp only [List.cons.injEq, true_and] at rest
      rw [groupText_injective first, ih rest]

theorem Receipt.errors_sorted {j : Json} {errors : List (String × List Nat)}
    (read : Receipt.errors? j = some errors) : Sorted errors := by
  unfold Receipt.errors? at read
  split at read
  · obtain ⟨groups, _, made⟩ := Option.bind_eq_some_iff.mp read
    have inserted (rest done : List (String × List Nat)) (sorted : Sorted done) :
        Sorted (rest.foldl (fun done g => insertMember g.1 g.2 done) done) := by
      induction rest generalizing done with
      | nil => exact sorted
      | cons g rest ih => exact ih _ (insertMember_sorted sorted)
    rw [← Option.some.inj made]
    exact inserted groups [] .nil
  · cases read

theorem Receipt.read_sorted {j : Json} {r : Receipt} (read : Receipt.ofJson? j = some r) :
    Sorted r.errors := by
  unfold Receipt.ofJson? at read
  obtain ⟨slots, present, read⟩ := Option.bind_eq_some_iff.mp read
  split at read
  · rename_i success events errors gas
    obtain ⟨_, _, read⟩ := Option.bind_eq_some_iff.mp read
    obtain ⟨_, _, read⟩ := Option.bind_eq_some_iff.mp read
    obtain ⟨groups, found, read⟩ := Option.bind_eq_some_iff.mp read
    obtain ⟨_, _, read⟩ := Option.bind_eq_some_iff.mp read
    rw [← Option.some.inj read]
    cases errors with
    | given value => exact Receipt.errors_sorted found
    | absent => exact Option.some.inj found ▸ .nil
    | cut => exact Option.some.inj found ▸ .nil
  · cases read

namespace Transaction

def errors (t : Transaction) : List (String × List Nat) :=
  match t.receipt with
  | some r => r.errors
  | none => []

def ranking (t : Transaction) : List (String × List Nat) :=
  match t.receipt with
  | some r => failureGroups r
  | none => []

theorem failures_eq (t : Transaction) :
    t.failures = t.ranking.map fun g => g.2.map failureText := by
  unfold failures ranking
  cases t.receipt <;> rfl

theorem failureSummary_chars (t : Transaction) :
    t.failureSummary.toList = groupsText (t.ranking.map (·.2)) := by
  rw [failureSummary, failures_eq, String.toList_join]
  simp [groupsText, groupText, List.flatMap_map, String.toList_intercalate, Function.comp_def]

theorem ranked {t : Transaction} (sorted : Sorted t.errors) : Ranked t.errors t.ranking := by
  unfold errors ranking at *
  cases found : t.receipt with
  | none => exact ⟨.refl _, .nil⟩
  | some r =>
    rw [found] at sorted
    exact failureGroups_ranked sorted

theorem failureSummary_codes {t u : Transaction} (same : t.failureSummary = u.failureSummary) :
    t.ranking.map (·.2) = u.ranking.map (·.2) := by
  refine groupsText_injective ?_
  rw [← failureSummary_chars, ← failureSummary_chars, same]

theorem read_sorted {j : Json} {t : Transaction} (read : Transaction.ofJson? j = some t) :
    Sorted t.errors := by
  unfold Transaction.ofJson? at read
  obtain ⟨slots, present, read⟩ := Option.bind_eq_some_iff.mp read
  split at read
  · rename_i id receipt
    obtain ⟨_, _, read⟩ := Option.bind_eq_some_iff.mp read
    obtain ⟨r, found, read⟩ := Option.bind_eq_some_iff.mp read
    rw [← Option.some.inj read]
    cases r with
    | none => exact .nil
    | some r =>
      cases receipt with
      | given value =>
        simp only [Slot.omissible, Slot.optional] at found
        split at found
        · cases found
        · obtain ⟨_, stored, same⟩ := Option.map_eq_some_iff.mp found
          exact Receipt.read_sorted (stored.trans same)
      | absent => cases found
      | cut => cases found
  · cases read

/-- One group for each depth and one text for each code, in the one order of depths that there is;
and no two summaries are alike unless the codes are. -/
theorem failures_ranked_and_told_apart (t : Transaction) (sorted : Sorted t.errors) :
    (∀ groups, Ranked t.errors groups ↔ groups = t.ranking) ∧
    t.failures = t.ranking.map (fun g => g.2.map failureText) ∧
    (∀ code, failureNames.length ≤ code → failureText code = toString code ++ " (UNKNOWN)") ∧
    ∀ u : Transaction, t.failureSummary = u.failureSummary →
      t.ranking.map (·.2) = u.ranking.map (·.2) := by
  have ranking := ranked sorted
  refine ⟨fun groups => ⟨(·.unique ranking), ?_⟩, failures_eq t, ?_, fun _ => failureSummary_codes⟩
  · rintro rfl
    exact ranking
  · intro code beyond
    have unnamed : failureNames[code]? = none := List.getElem?_eq_none beyond
    simp [failureText, failureName, unnamed, String.append_assoc]

theorem tenth_depth_behind_ninth :
    let t : Transaction := ⟨"t", some ⟨false, [],
      [("", []), ("+2", [26]), ("10", [10]), ("2", [7, 7]), ("9", [9]), ("x", [0])], none⟩⟩
    Sorted t.errors ∧ Ranked t.errors t.ranking ∧
      t.ranking.map (·.1) = ["+2", "2", "9", "10", "", "x"] ∧
      t.failures = [["26 (UNKNOWN)"], ["7 (CALL_CONTRACT_FAILED)", "7 (CALL_CONTRACT_FAILED)"],
        ["9 (JSON_OUTPUT_CORRUPTED)"], ["10 (CONTRACT_NOT_EXIST)"], [], ["0 (CHECKER_FAILED)"]] := by
  intro t
  have sorted : Sorted t.errors := by
    unfold Sorted
    decide +kernel
  obtain ⟨ranked, texts, _⟩ := failures_ranked_and_told_apart t sorted
  refine ⟨sorted, (ranked _).mpr rfl, by cbv, ?_⟩
  rw [texts]
  cbv

end Transaction
end TypedContracts
