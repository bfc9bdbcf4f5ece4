import TypedContracts.Proofs.SExp.Faults
import TypedContracts.Proofs.SExp.Messages

/-!
A text that is not all blanks holds one expression or has a first fault, so the reader rejects
exactly the texts with a first fault. The text is taken apart from left to right: a string up to
its closing quote, a row of items up to the bracket that closes it.
-/
namespace TypedContracts.SExp
open TypedContracts.Text

variable {before pre cs rest : List Char} {cause : Position → Fault} {i : Nat}

theorem longest_prefix (p : Char → Bool) (cs : List Char) : ∃ first rest, cs = first ++ rest ∧
    (∀ c ∈ first, p c = true) ∧ ∀ c ∈ rest.head?, p c = false := by
  refine ⟨cs.takeWhile p, cs.dropWhile p, List.takeWhile_append_dropWhile.symm,
    fun c => List.mem_takeWhile_imp, ?_⟩
  intro c first
  have other := List.head?_dropWhile_not p cs
  rw [Option.mem_def.mp first] at other
  simpa using other

theorem digits_or_fewer (digit : Char → Bool) (n : Nat) (cs : List Char) :
    (∃ digits rest, cs = digits ++ rest ∧ digits.length = n ∧ ∀ d ∈ digits, digit d = true) ∨
    ∃ digits rest, cs = digits ++ rest ∧ digits.length < n ∧ (∀ d ∈ digits, digit d = true) ∧
      ∀ c ∈ rest.head?, digit c = false := by
  obtain ⟨digits, rest, rfl, all, stop⟩ := longest_prefix digit cs
  by_cases few : digits.length < n
  · exact .inr ⟨digits, rest, rfl, few, all, stop⟩
  · have enough : (digits.take n).length = n := List.length_take_of_le (Nat.le_of_not_lt few)
    refine .inl ⟨digits.take n, digits.drop n ++ rest, ?_, enough, ?_⟩
    · rw [← List.append_assoc, List.take_append_drop]
    · exact fun d member => all d (List.mem_of_mem_take member)

theorem escape_or_bad (cs : List Char) : (∃ name byte rest, cs = name ++ rest ∧ Escape name byte) ∨
    (∃ rest, cs = '\n' :: rest) ∨ ∃ cause, BadEscape cs cause := by
  cases cs with
  | nil => exact .inr (.inr ⟨_, .ended⟩)
  | cons c cs =>
    cases simple : simpleEscape? c with
    | some byte => exact .inl ⟨[c], byte, cs, rfl, simple_escape simple⟩
    | none =>
      by_cases newline : c = '\n'
      · exact .inr (.inl ⟨cs, by rw [newline]⟩)
      by_cases decimal : Digits.isDecimal c = true
      · rcases digits_or_fewer Digits.isDecimal 2 cs with
          ⟨digits, rest, rfl, two, all⟩ | ⟨digits, rest, rfl, few, all, stop⟩
        · obtain ⟨a, b, rfl⟩ := List.length_eq_two.mp two
          have three : ∀ d ∈ [c, a, b], Digits.isDecimal d = true :=
            List.forall_mem_cons.mpr ⟨decimal, all⟩
          by_cases above : 255 < 100 * Digits.value c + 10 * Digits.value a + Digits.value b
          · exact .inr (.inr ⟨_, .outOfRange three above⟩)
          · exact .inl ⟨[c, a, b], _, rest, rfl, .decimal three rfl (by omega)⟩
        · have present : 0 < (c :: digits).length := by simp
          have below : (c :: digits).length < 3 := Nat.succ_lt_succ few
          have more : ∀ d ∈ c :: digits, Digits.isDecimal d = true :=
            List.forall_mem_cons.mpr ⟨decimal, all⟩
          exact .inr (.inr ⟨_, .shortDecimal present below more stop⟩)
      by_cases hex : c = 'x'
      · subst hex
        rcases digits_or_fewer Digits.isHexadecimal 2 cs with
          ⟨digits, rest, rfl, two, all⟩ | ⟨digits, rest, rfl, few, all, stop⟩
        · obtain ⟨a, b, rfl⟩ := List.length_eq_two.mp two
          exact .inl ⟨['x', a, b], _, rest, rfl, .hexadecimal all⟩
        · exact .inr (.inr ⟨_, .shortHexadecimal few all stop⟩)
      · refine .inr (.inr ⟨_, .unknown ?_ newline (by simpa using decimal) hex⟩)
        intro byte names
        rcases escape_cases names with ⟨d, same, named⟩ | ⟨_, _, _, same, _⟩ | ⟨_, _, same, _⟩
        · obtain rfl : c = d := by simpa using same
          simp [simple] at named
        all_goals simp at same

inductive StringText : List Char → Prop where
  | closed {body rest : List Char} {bytes : List UInt8} (inside : Spelling body bytes) :
      StringText (body ++ '"' :: rest)
  | whole {body : List Char} {bytes : List UInt8} (inside : Spelling body bytes) : StringText body
  | faulty {body rest : List Char} {bytes : List UInt8} {cause : Position → Fault}
      (inside : Spelling body bytes) (bad : BadEscape rest cause) :
      StringText (body ++ '\\' :: rest)

theorem StringText.behind (pre : List Char) (leads : ∀ body rest bytes, cs = body ++ rest →
    Spelling body bytes → ∃ more, Spelling (pre ++ body) more) (text : StringText cs) :
    StringText (pre ++ cs) := by
  cases text with
  | closed inside =>
    obtain ⟨more, whole⟩ := leads _ _ _ rfl inside
    rw [← List.append_assoc]
    exact .closed whole
  | whole inside =>
    obtain ⟨more, whole⟩ := leads cs [] _ (by simp) inside
    exact .whole whole
  | faulty inside bad =>
    obtain ⟨more, whole⟩ := leads _ _ _ rfl inside
    rw [← List.append_assoc]
    exact .faulty whole bad

theorem string_text (cs : List Char) : StringText cs := by
  induction len : cs.length using Nat.strong_induction_on generalizing cs with
  | _ n ih =>
    have shorter (ds : List Char) (less : ds.length < cs.length) : StringText ds :=
      ih ds.length (len ▸ less) ds rfl
    match cs with
    | [] => exact .whole .nil
    | c :: rest =>
      by_cases quote : c = '"'
      · subst quote
        exact @StringText.closed [] rest [] .nil
      by_cases backslash : c = '\\'
      · subst backslash
        rcases escape_or_bad rest with ⟨name, byte, tail, rfl, names⟩ | ⟨tail, rfl⟩ | ⟨cause, bad⟩
        · have after := shorter tail (by simp only [List.length_cons, List.length_append]; omega)
          exact after.behind ('\\' :: name) fun _ _ _ _ inside => ⟨_, .escape names inside⟩
        · obtain ⟨gap, tail, rfl, gaps, maximal⟩ := longest_prefix isGap tail
          have after := shorter tail (by simp only [List.length_cons, List.length_append]; omega)
          refine after.behind ('\\' :: '\n' :: gap) fun body _ _ same inside => ?_
          have solid : ∀ d ∈ body.head?, isGap d = false := by
            subst same
            cases body with
            | nil => simp
            | cons d body => exact maximal
          exact ⟨_, .continuation gaps solid inside⟩
        · exact @StringText.faulty [] rest [] cause .nil bad
      · have after := shorter rest (by simp)
        exact after.behind [c] fun _ _ _ _ inside => ⟨_, .raw quote backslash inside⟩

/-- What `pre` holds may stand in front of the items that the rest of the text begins with. -/
def Leads (pre cs : List Char) : Prop :=
  ∀ inner rest items, cs = inner ++ rest → Items inner items → ∃ more, Items (pre ++ inner) more

/-- The text before may still go on, also with the items that the rest of the text begins with. -/
def Extensible (before cs : List Char) : Prop :=
  ∀ inner rest items, cs = inner ++ rest → Items inner items → Unfinished (before ++ inner)

inductive RowText (before : List Char) : List Char → Prop where
  | closed {inner rest : List Char} {items : List SExp} (inside : Items inner items) :
      RowText before (inner ++ ')' :: rest)
  | whole {inner : List Char} {items : List SExp} (inside : Items inner items) :
      RowText before inner
  | faulty {cs : List Char} {cause : Position → Fault} {i : Nat}
      (fault : FirstFault (before ++ cs) cause i) : RowText before cs

theorem leads_blank {c : Char} (blank : isBlank c = true) (cs : List Char) : Leads [c] cs :=
  fun _ _ _ _ inside => ⟨_, .blank blank inside⟩

theorem leads_expression {e : List Char} {tree : SExp} (expression : Expression e tree)
    (apart : Word e → Apart cs) : Leads e cs := by
  rintro inner rest items rfl inside
  exact ⟨_, .item expression (fun bare => apart_of_append (apart bare)) inside⟩

theorem RowText.behind (leads : Leads pre cs) (row : RowText (before ++ pre) cs) :
    RowText before (pre ++ cs) := by
  cases row with
  | closed inside =>
    obtain ⟨more, whole⟩ := leads _ _ _ rfl inside
    rw [← List.append_assoc]
    exact .closed whole
  | whole inside =>
    obtain ⟨more, whole⟩ := leads cs [] _ (by simp) inside
    exact .whole whole
  | faulty fault =>
    rw [List.append_assoc] at fault
    exact .faulty fault

theorem Extensible.behind (leads : Leads pre cs) (goesOn : Extensible before (pre ++ cs)) :
    Extensible (before ++ pre) cs := by
  rintro inner rest items rfl inside
  obtain ⟨more, whole⟩ := leads inner rest items rfl inside
  rw [List.append_assoc]
  exact goesOn (pre ++ inner) rest more (by simp) whole

theorem Extensible.unfinished (goesOn : Extensible before cs) : Unfinished before := by
  simpa using goesOn [] cs [] rfl .nil

theorem extensible_opening (unfinished : Unfinished before) (cs : List Char) :
    Extensible (before ++ ['(']) cs := by
  intro inner rest items _ inside
  simpa using Unfinished.list unfinished inside

theorem expression_nonempty {e : List Char} {tree : SExp} (expression : Expression e tree) :
    e ≠ [] := by
  cases expression with
  | word bare => exact bare.1
  | quoted => simp
  | list => simp

/-- An expression comes first, or the fault is found before it is complete. -/
theorem expression_or_fault {c : Char} (solid : isBlank c = false) (open' : c ≠ ')')
    (unfinished : Unfinished before) (row : RowText (before ++ ['(']) cs) :
    (∃ e tree rest, c :: cs = e ++ rest ∧ Expression e tree ∧ (Word e → Apart rest)) ∨
      ∃ cause i, FirstFault (before ++ c :: cs) cause i := by
  -- A list or a string ends by itself and asks nothing of what follows.
  have bracket (d : Char) (delimiter : ¬WordChar d) (e rest : List Char) :
      Word (d :: e) → Apart rest := fun bare => absurd (bare.2 d (by simp)) delimiter
  by_cases opening : c = '('
  · subst opening
    cases row with
    | @closed inner rest items inside =>
      exact .inl ⟨'(' :: inner ++ [')'], .list items, rest, by simp, .list inside,
        bracket '(' (by decide) _ rest⟩
    | whole inside => exact .inr ⟨_, _, .unterminatedList unfinished inside⟩
    | faulty fault => exact .inr ⟨_, _, by simpa using fault⟩
  by_cases quote : c = '"'
  · subst quote
    cases string_text cs with
    | @closed body rest bytes inside =>
      exact .inl ⟨'"' :: body ++ ['"'], _, rest, by simp, .quoted inside,
        bracket '"' (by decide) _ rest⟩
    | whole inside => exact .inr ⟨_, _, .unterminatedString unfinished inside⟩
    | faulty inside bad =>
      have fault := FirstFault.escape unfinished inside bad
      exact .inr ⟨_, _, by simpa using fault⟩
  · have first : WordChar c := ⟨solid, opening, open', quote⟩
    obtain ⟨w, rest, rfl, word, stop⟩ := longest_prefix (fun c => decide (WordChar c)) cs
    have more : ∀ d ∈ w, WordChar d := by simpa using word
    have bare : Word (c :: w) := ⟨by simp, List.forall_mem_cons.mpr ⟨first, more⟩⟩
    have apart : Apart rest := by simpa [Apart] using stop
    exact .inl ⟨c :: w, _, rest, rfl, .word bare, fun _ => apart⟩

theorem row_text (cs : List Char) : ∀ {before : List Char}, Extensible before cs →
    RowText before cs := by
  induction len : cs.length using Nat.strong_induction_on generalizing cs with
  | _ n ih =>
    have shorter (ds : List Char) (less : ds.length < cs.length) {before : List Char}
        (goesOn : Extensible before ds) : RowText before ds :=
      ih ds.length (len ▸ less) ds rfl goesOn
    intro before goesOn
    match cs with
    | [] => exact .whole .nil
    | c :: cs =>
      by_cases blank : isBlank c = true
      · have leads := leads_blank blank cs
        exact (shorter cs (by simp) (goesOn.behind leads)).behind leads
      by_cases closing : c = ')'
      · subst closing
        exact @RowText.closed before [] cs [] .nil
      have inner := shorter cs (by simp) (extensible_opening goesOn.unfinished cs)
      rcases expression_or_fault (by simpa using blank) closing goesOn.unfinished inner with
        ⟨e, tree, rest, same, expression, apart⟩ | ⟨cause, i, fault⟩
      · have present := List.length_pos_iff.mpr (expression_nonempty expression)
        have leads := leads_expression expression apart
        rw [same] at goesOn shorter ⊢
        exact (shorter rest (by simp; omega) (goesOn.behind leads)).behind leads
      · exact .faulty fault

/-- A text is all blanks, holds one expression or has a first fault. -/
theorem blanks_or_expression_or_fault (cs : List Char) :
    Blanks cs ∨ (∃ tree, Denotes cs tree) ∨ ∃ cause i, FirstFault cs cause i := by
  obtain ⟨before, rest, rfl, blanks, stop⟩ := longest_prefix isBlank cs
  match rest with
  | [] => exact .inl (by simpa [Blanks] using blanks)
  | c :: rest =>
    right
    have solid : isBlank c = false := stop c rfl
    by_cases closing : c = ')'
    · subst closing
      exact .inr ⟨_, _, .unexpectedClose blanks⟩
    have unfinished := Unfinished.start blanks
    have row := row_text rest (extensible_opening unfinished rest)
    rcases expression_or_fault solid closing unfinished row with
      ⟨e, tree, rest, same, expression, apart⟩ | fault
    · obtain ⟨gap, after, rfl, gaps, stop⟩ := longest_prefix isBlank rest
      rw [same, ← List.append_assoc, ← List.append_assoc]
      cases after with
      | nil =>
        refine .inl ⟨tree, before, e, gap, by simp, blanks, gaps, expression⟩
      | cons d after =>
        exact .inr ⟨_, _, .trailing blanks expression gaps (stop d rfl) apart⟩
    · exact .inr fault

theorem lexemes_nil_iff (cs : List Char) : lexemes cs = [] ↔ Blanks cs := by
  have none : tokens (lexemes cs) = [] ↔ lexemes cs = [] := List.map_eq_nil_iff
  rw [← none, lexemes_iff_lexes cs (by simp [Clean])]
  refine ⟨lexes_blanks_of_nil, fun blanks => ?_⟩
  simpa using lexes_blanks blanks .nil

theorem parse_blank {text : String} (blanks : Blanks text.toList) :
    parse text = .error .empty := by
  have none := (lexemes_nil_iff text.toList).mpr blanks
  rw [lexemes_eq_scan] at none
  rw [parse_eq_scan, none, single]

theorem first_fault_parsed {text : String} (solid : ¬Blanks text.toList)
    (found : FirstFault text.toList cause i) :
    parse text = .error (cause (placeAt text.toList i)) := by
  have present : scan .origin .between text.toList ≠ [] := by
    rw [← lexemes_eq_scan]
    exact mt (lexemes_nil_iff text.toList).mp solid
  rw [parse_eq_scan, single_present present]
  exact first_fault_read found

theorem parse_error_iff (text : String) (solid : ¬Blanks text.toList) (fault : Fault) :
    parse text = .error fault ↔
      ∃ cause i, FirstFault text.toList cause i ∧ fault = cause (placeAt text.toList i) := by
  constructor
  · intro rejected
    rcases blanks_or_expression_or_fault text.toList with blanks | ⟨tree, denotes⟩ |
      ⟨cause, i, found⟩
    · exact absurd blanks solid
    · have accepted := (parse_iff_denotes text tree).mpr denotes
      rw [rejected] at accepted
      cases accepted
    · have reported := first_fault_parsed solid found
      rw [rejected] at reported
      exact ⟨cause, i, found, Except.error.inj reported⟩
  · rintro ⟨cause, i, found, rfl⟩
    exact first_fault_parsed solid found

theorem FirstFault.within (fault : FirstFault cs cause i) : i ≤ cs.length := by
  cases fault <;> simp

theorem BadEscape.placed (bad : BadEscape cs cause) (p : Position) : (cause p).pos? = some p := by
  cases bad <;> rfl

theorem FirstFault.placed (fault : FirstFault cs cause i) (p : Position) :
    (cause p).pos? = some p := by
  cases fault with
  | escape _ _ bad => exact bad.placed p
  | _ => rfl

theorem FirstFault.unique {other : Position → Fault} {j : Nat} (first : FirstFault cs cause i)
    (second : FirstFault cs other j) :
    j = i ∧ other (placeAt cs j) = cause (placeAt cs i) := by
  have same : other (placeAt cs j) = cause (placeAt cs i) :=
    Except.error.inj ((@first_fault_read _ _ _ .origin second).symm.trans (first_fault_read first))
  have place := second.placed (placeAt cs j)
  rw [same, first.placed, Option.some.injEq] at place
  exact ⟨(place_injective first.within second.within place).symm, same⟩

/-- Not one of the faults that no text has: its end where an expression is asked for, and two
hexadecimal digits that name no byte. -/
def Fault.Met (fault : Fault) : Prop :=
  (∀ p, fault ≠ .unexpectedEnd p) ∧ ∀ digits p, fault ≠ .invalidHexadecimal digits p

theorem FirstFault.met (found : FirstFault cs cause i) (p : Position) : (cause p).Met := by
  cases found with
  | escape _ _ bad => cases bad <;> simp [Fault.Met]
  | _ => simp [Fault.Met]

theorem fault_met {text : String} {fault : Fault} (rejected : parse text = .error fault) :
    fault.Met := by
  by_cases blanks : Blanks text.toList
  · rw [parse_blank blanks] at rejected
    obtain rfl := Except.error.inj rejected
    simp [Fault.Met]
  · obtain ⟨cause, i, found, rfl⟩ := (parse_error_iff text blanks fault).mp rejected
    exact found.met _

/-- A text that is not all blanks is rejected exactly for its first fault. There is one at most, and
its message tells it from all others and ends with the line and the column of its index. No text at
all is rejected for an expression missing at its end or for two hexadecimal digits. -/
theorem first_fault_reported (text : String) :
    (¬Blanks text.toList →
      (∀ fault, parse text = .error fault ↔
        ∃ cause i, FirstFault text.toList cause i ∧ fault = cause (placeAt text.toList i)) ∧
      ∀ cause i, FirstFault text.toList cause i →
        let place := placeAt text.toList i
        i ≤ text.toList.length ∧
        (∀ other j, FirstFault text.toList other j →
          j = i ∧ other (placeAt text.toList j) = cause place) ∧
        (∃ head, (cause place).message =
          head ++ (toString place.line ++ ":" ++ toString place.column)) ∧
        ∀ fault, fault.message = (cause place).message → fault = cause place) ∧
    ∀ fault, parse text = .error fault → ∀ rest,
      fault.message ≠ "Unexpected end of input at " ++ rest ∧
        fault.message ≠ "Invalid escape '\\x" ++ rest := by
  refine ⟨fun solid => ⟨parse_error_iff text solid, ?_⟩, ?_⟩
  · intro cause i found place
    have placed := found.placed place
    exact ⟨found.within, fun other j => found.unique, ⟨_, Fault.message_eq placed⟩,
      fun fault => message_unique placed⟩
  · intro fault rejected rest
    obtain ⟨noEnd, noHexadecimal⟩ := fault_met rejected
    refine ⟨fun same => ?_, fun same => ?_⟩
    · obtain ⟨p, ended⟩ := Fault.message_end same
      exact noEnd p ended
    · obtain ⟨digits, p, invalid⟩ := Fault.message_hexadecimal same
      exact noHexadecimal digits p invalid

theorem escape_fault_on_third_line :
    let text := "(map\n \"a\\\n  b\\q\" (c"
    ¬Blanks text.toList ∧ parse text = .error (.invalidEscape 'q' ⟨3, 5⟩) ∧
      ∃ cause i, FirstFault text.toList cause i ∧ placeAt text.toList i = ⟨3, 5⟩ ∧
        (cause ⟨3, 5⟩).message = "Invalid escape sequence '\\q' at 3:5" ∧
        ∀ other j, FirstFault text.toList other j → j = i := by
  intro text
  have solid : ¬Blanks text.toList := fun blanks => absurd (blanks '(' (by decide)) (by decide)
  have rejected : parse text = .error (.invalidEscape 'q' ⟨3, 5⟩) := by cbv
  obtain ⟨exactly, facts⟩ := (first_fault_reported text).1 solid
  obtain ⟨cause, i, found, same⟩ := (exactly _).mp rejected
  obtain ⟨_, alone, _⟩ := facts cause i found
  have place := found.placed (placeAt text.toList i)
  rw [← same] at place
  have place := (Option.some.inj place).symm
  rw [place] at same
  refine ⟨solid, rejected, cause, i, found, place, ?_, fun other j also => (alone other j also).1⟩
  rw [← same]
  decide

end TypedContracts.SExp
