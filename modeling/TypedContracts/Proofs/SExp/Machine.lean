import TypedContracts.Proofs.SExp.Descent

/-!
The machine over characters and the stack of open lists, followed by the descent. Wherever the
descent stands in a text, what the machine makes of the characters left is what the descent comes
to: that is kept from one call to the next, so it holds of a whole text.
-/
namespace TypedContracts.SExp
open TypedContracts.Text

variable {r : Reader} {c : Char} {start : Position} {bytes : List UInt8} {stack : List Opened}
  {item : Reading SExp} {ls : List Lexeme} {outcome : Except Fault SExp} {ending : Position}

def Reader.lexemes (r : Reader) : List Lexeme := scan r.place .between r.rest

def placed (ending : Position) : List Opened → SExp → List Lexeme → Except Fault SExp
  | [], tree, rest => alone tree rest
  | inner :: stack, tree, rest => assemble ending (inner.push tree :: stack) rest

/-- The fault is as said. Being spent is not looked at here. -/
def Halt.Is (said : Fault → Prop) : Halt → Prop
  | .fault cause => said cause
  | .spent => True

theorem assemble_atom (stack : List Opened) (pos : Position) (text : String) (rest : List Lexeme) :
    assemble ending stack (⟨pos, .atom text⟩ :: rest) = placed ending stack (.atom text) rest := by
  cases stack <;> simp [assemble, placed]

theorem assemble_closing (inner : Opened) (stack : List Opened) (pos : Position)
    (rest : List Lexeme) :
    assemble ending (inner :: stack) (⟨pos, .closing⟩ :: rest) = placed ending stack inner.close rest := by
  cases stack <;> simp [assemble, placed]

theorem escape_followed (bytes : List UInt8) (r : Reader)
    (same : ls = scan r.place (.quoted start bytes (.escaped r.place)) r.rest) :
    Ends (readEscape bytes r)
      (fun more r' => ls = scan r'.place (.quoted start more .plain) r'.rest)
      fun h _ => h.Is fun f => ls = [⟨start, .fault f⟩] := by
  rcases readEscape_run bytes r with ⟨name, byte, rest, read, names, run⟩ |
    ⟨gap, rest, read, gaps, solid, run⟩ | ⟨read, rest, cause, _, bad, run⟩
  · rw [run]
    rw [read, scan_escape names] at same
    show ls = scan _ _ (r.along name).rest
    rw [rest_along read]
    exact same
  · have across := scan_gap gaps start (r.place.after '\n') bytes rest
    have plain : simpleEscape? '\n' = none := by decide
    rw [scan_continued solid] at across
    rw [run]
    show ls = scan _ _ (r.along ('\n' :: gap)).rest
    rw [rest_along read, same, read]
    simpa [scan, step, escapeStep, plain, Reader.along, Position.along] using across
  · rw [run]
    exact same.trans (scan_bad_escape bad start r.place r.place bytes)

theorem stringRound_followed (bytes : List UInt8) (r : Reader)
    (same : ls = scan r.place (.quoted start bytes .plain) r.rest) :
    Ends (stringRound start bytes r) (fun out r' => out.Holds
        (fun more => ls = scan r'.place (.quoted start more .plain) r'.rest)
        fun tree => ∃ text, tree = .atom text ∧ ls = ⟨start, .atom text⟩ :: r'.lexemes)
      fun h _ => h.Is fun f => ls = [⟨start, .fault f⟩] := by
  rw [stringRound]
  cases next : r.next with
  | none =>
    rw [bind_ok (advance_end next)]
    rw [rest_end next] at same
    exact same
  | some c =>
    obtain ⟨cs, read⟩ := rest_next next
    have tail : (r.along [c]).rest = cs := rest_step read
    rw [bind_ok (advance_run next)]
    rw [read] at same
    dsimp only
    split
    · rename_i quote
      refine ⟨_, rfl, ?_⟩
      rw [same, Reader.lexemes, tail]
      simp [scan, step, rawStep, quote, quotedAtom, Reader.along, Position.along]
    split
    · rename_i quote backslash
      refine (escape_followed bytes (r.along [c]) ?_).bind fun more r' found => found
      rw [same, tail]
      simp [scan, step, rawStep, backslash, Reader.along, Position.along]
    · rename_i quote backslash
      show ls = _
      rw [same, tail]
      simp [scan, step, rawStep, quote, backslash, Reader.along, Position.along]

theorem string_followed (next : r.next = some '"') :
    Ends (readString r.place r)
      (fun tree r' => ∃ text, tree = .atom text ∧ r.lexemes = ⟨r.place, .atom text⟩ :: r'.lexemes)
      fun h _ => h.Is fun f => r.lexemes = [⟨r.place, .fault f⟩] := by
  obtain ⟨cs, read⟩ := rest_next next
  have tail : (r.along ['"']).rest = cs := rest_step read
  rw [readString, bind_ok (advance_run next)]
  refine loop_keeps (fun _ => trivial) stringRound_followed _ [] _ ?_
  rw [Reader.lexemes, read, scan_quote, tail]
  rfl

theorem lexemes_skipped (r : Reader) :
    (r.along (r.rest.takeWhile isBlank)).lexemes = r.lexemes := by
  have parts := (List.takeWhile_append_dropWhile (p := isBlank) (l := r.rest)).symm
  rw [Reader.lexemes, Reader.lexemes, rest_along parts, parts,
    scan_blanks fun c => List.mem_takeWhile_imp, ← parts]
  rfl

theorem blanks_skipped (r : Reader) : ∃ r', skipWhile isBlank r = .ok () r' ∧
    r'.lexemes = r.lexemes ∧ ∀ c, r'.next = some c → isBlank c = false :=
  ⟨_, skipWhile_run isBlank r, lexemes_skipped r, fun _ => skipped_ready rfl⟩

theorem lexemes_end (next : r.next = none) : r.lexemes = [] := by
  rw [Reader.lexemes, rest_end next]
  rfl

theorem lexemes_opening (next : r.next = some '(') :
    r.lexemes = ⟨r.place, .opening⟩ :: (r.along ['(']).lexemes := by
  obtain ⟨cs, read⟩ := rest_next next
  rw [Reader.lexemes, Reader.lexemes, rest_step read, read, scan_opening]
  rfl

theorem lexemes_closing (next : r.next = some ')') :
    r.lexemes = ⟨r.place, .closing⟩ :: (r.along [')']).lexemes := by
  obtain ⟨cs, read⟩ := rest_next next
  rw [Reader.lexemes, Reader.lexemes, rest_step read, read, scan_closing]
  rfl

theorem lexemes_atom (next : r.next = some c) (word : WordChar c) :
    r.lexemes = ⟨r.place, .atom r.atom.text⟩ ::
      (r.along (r.rest.takeWhile fun c => !isDelimiter c)).lexemes := by
  have parts := (List.takeWhile_append_dropWhile (p := fun c => !isDelimiter c) (l := r.rest)).symm
  have stop := List.head?_dropWhile_not (fun c => !isDelimiter c) r.rest
  obtain ⟨cs, read⟩ := rest_next next
  have bare : Word (r.rest.takeWhile fun c => !isDelimiter c) := by
    refine ⟨by simp [read, (not_delimiter_iff c).mpr word], fun d member => ?_⟩
    exact (not_delimiter_iff d).mp (by simpa using List.mem_takeWhile_imp member)
  have apart : Apart (r.rest.dropWhile fun c => !isDelimiter c) := by
    intro d first
    rw [Option.mem_def.mp first] at stop
    exact (delimiter_iff d).mp (by simpa using stop)
  have found := scan_word bare apart r.place
  rw [← parts] at found
  rw [Reader.lexemes, Reader.lexemes, rest_along parts]
  exact found

theorem lexemes_solid (next : r.next = some c) (solid : isBlank c = false) :
    ∃ token more, r.lexemes = ⟨r.place, token⟩ :: more := by
  obtain ⟨cs, read⟩ := rest_next next
  obtain ⟨token, more, found⟩ := scan_solid solid r.place cs
  exact ⟨token, more, by rw [Reader.lexemes, read, found]⟩

/-- A reader of items goes where the machine goes, in whichever list it is asked. -/
def Follows (ending : Position) (item : Reading SExp) : Prop :=
  ∀ r inner stack, Ready r → r.next ≠ some ')' → Ends (item r)
    (fun tree r' =>
      assemble ending (inner :: stack) r.lexemes =
        assemble ending (inner.push tree :: stack) r'.lexemes)
    fun h _ => h.Is fun f => assemble ending (inner :: stack) r.lexemes = .error f

theorem listRound_followed (follows : Follows ending item) (found : List SExp) (r : Reader)
    (same : outcome = assemble ending (⟨start, found⟩ :: stack) r.lexemes) :
    Ends (listRound item start found r) (fun out r' => out.Holds
        (fun more => outcome = assemble ending (⟨start, more⟩ :: stack) r'.lexemes)
        fun tree => outcome = placed ending stack tree r'.lexemes)
      fun h _ => h.Is fun f => outcome = .error f := by
  obtain ⟨r', skips, kept, solid⟩ := blanks_skipped r
  rw [listRound, bind_ok skips, bind_ok (peek_run r')]
  rw [← kept] at same
  cases next : r'.next with
  | none =>
    rw [lexemes_end next] at same
    exact same
  | some c =>
    dsimp only
    split
    · rename_i closing
      subst closing
      rw [bind_ok (advance_run next)]
      rw [lexemes_closing next, assemble_closing] at same
      exact same
    · rename_i other
      have asked := follows r' ⟨start, found⟩ stack ⟨c, next, solid c next⟩
        fun closing => other (Option.some.inj (next.symm.trans closing))
      rw [← same] at asked
      exact asked.bind fun tree r'' found => found

theorem list_followed (follows : Follows ending item) (next : r.next = some '(') (stack : List Opened) :
    Ends (readListWith item r.place r)
      (fun tree r' => assemble ending stack r.lexemes = placed ending stack tree r'.lexemes)
      fun h _ => h.Is fun f => assemble ending stack r.lexemes = .error f := by
  rw [readListWith, bind_ok (advance_run next)]
  refine loop_keeps (fun _ => trivial) (listRound_followed follows) _ [] _ ?_
  rw [lexemes_opening next, assemble_opening]

theorem expr_followed (follows : Follows ending item) (stack : List Opened) (r : Reader) (ready : Ready r)
    (open' : stack = [] ∨ r.next ≠ some ')') : Ends (readExprWith item r)
      (fun tree r' => assemble ending stack r.lexemes = placed ending stack tree r'.lexemes)
      fun h _ => h.Is fun f => assemble ending stack r.lexemes = .error f := by
  obtain ⟨c, next, solid⟩ := ready
  rw [readExprWith, bind_ok (placed_run r), bind_ok (peek_run r), next]
  dsimp only
  split
  · rename_i opening
    exact list_followed follows (opening ▸ next) stack
  split
  · rename_i opening closing
    obtain rfl : stack = [] := open'.resolve_right fun other => other (closing ▸ next)
    rw [lexemes_closing (closing ▸ next)]
    rfl
  split
  · rename_i opening closing quote
    refine (string_followed (quote ▸ next)).imp ?_ ?_
    · rintro tree r' ⟨text, rfl, found⟩
      rw [found, assemble_atom]
    · intro h r' said
      cases h with
      | fault f =>
        show assemble ending stack r.lexemes = .error f
        rw [show r.lexemes = _ from said, assemble_fault]
      | spent => trivial
  · rename_i opening closing quote
    rw [readAtom_run]
    show assemble ending stack r.lexemes = _
    rw [lexemes_atom next ⟨solid, opening, closing, quote⟩, assemble_atom]
    rfl

theorem spent_follows : Follows ending (throw .spent) := fun _ _ _ _ _ => trivial

theorem nested_follows (depth : Nat) : Follows ending (nested depth) := by
  induction depth with
  | zero =>
    intro r inner stack ready other
    exact expr_followed spent_follows (inner :: stack) r ready (.inr other)
  | succ depth ih =>
    intro r inner stack ready other
    exact expr_followed ih (inner :: stack) r ready (.inr other)

theorem readExpr_followed (r : Reader) (ready : Ready r) : Ends (readExpr r)
      (fun tree r' => assemble ending [] r.lexemes = alone tree r'.lexemes)
      fun h _ => h.Is fun f => assemble ending [] r.lexemes = .error f := by
  rw [readExpr]
  cases r.remaining with
  | zero => exact expr_followed spent_follows [] r ready (.inl rfl)
  | succ depth => exact expr_followed (nested_follows depth) [] r ready (.inl rfl)

theorem readWhole_followed (ending : Position) (r : Reader) : Ends (readWhole r)
      (fun tree _ => single ending r.lexemes = .ok tree)
      fun h _ => h.Is fun f => single ending r.lexemes = .error f := by
  obtain ⟨r₁, skips, kept, solid⟩ := blanks_skipped r
  rw [readWhole, bind_ok skips, bind_ok (peek_run r₁), ← kept]
  cases next : r₁.next with
  | none =>
    rw [lexemes_end next]
    rfl
  | some c =>
    have solid₁ := solid c next
    obtain ⟨token, behind, found⟩ := lexemes_solid next solid₁
    rw [single_present (by simp [found])]
    refine (readExpr_followed r₁ ⟨c, next, solid₁⟩).bind ?_
    intro tree r₂ whole
    obtain ⟨r₃, skips, kept, more⟩ := blanks_skipped r₂
    rw [bind_ok skips, bind_ok (peek_run r₃)]
    rw [← kept] at whole
    cases next' : r₃.next with
    | none =>
      rw [lexemes_end next'] at whole
      exact whole
    | some d =>
      obtain ⟨token, behind, found⟩ := lexemes_solid next' (more d next')
      rw [found] at whole
      exact whole

end TypedContracts.SExp
