import TypedContracts.Proofs.SExp.Faults

/-!
The reader by recursive descent, one function for each kind of expression, over a position in the
text. A loop is granted as many rounds behind its first one as characters remain where it starts,
and lists may nest as deep; where that did not suffice the reader would be spent. It never is: what
goes on to another round has taken a character, and no function moves back or beyond the end.
-/
namespace TypedContracts.SExp
open TypedContracts.Text

structure Bare where
  start : Nat
  stop : Nat
  text : String
deriving DecidableEq, Repr

/-- A reading under way. The unquoted atoms obtained are kept, last one first; nothing reads
them. -/
structure Reader where
  input : List Char
  position : Nat
  place : Position
  bare : List Bare

inductive Halt where
  | fault (cause : Fault)
  /-- The rounds granted did not suffice. -/
  | spent
deriving DecidableEq, Repr

abbrev Reading := EStateM Halt Reader

namespace Reader

def fresh (input : List Char) : Reader := ⟨input, 0, .origin, []⟩

def Within (r : Reader) : Prop := r.position ≤ r.input.length

def remaining (r : Reader) : Nat := r.input.length - r.position

def rest (r : Reader) : List Char := r.input.drop r.position

def next (r : Reader) : Option Char := r.input[r.position]?

def along (r : Reader) (cs : List Char) : Reader :=
  ⟨r.input, r.position + cs.length, r.place.along cs, r.bare⟩

end Reader

def peek : Reading (Option Char) := fun r => .ok r.next r

def currentPlace : Reading Position := fun r => .ok r.place r

def currentPosition : Reading Nat := fun r => .ok r.position r

def advance : Reading (Option Char) := fun r =>
  match r.next with
  | some c => .ok (some c) ⟨r.input, r.position + 1, r.place.after c, r.bare⟩
  | none => .ok none r

inductive Round (σ β : Type) where
  | again (s : σ)
  | done (result : β)

/-- Rounds until one is done, at most this many behind the first. -/
def loop {σ β : Type} (round : σ → Reading (Round σ β)) (more : Nat) (s : σ) : Reading β := do
  match ← round s with
  | .done b => return b
  | .again s =>
    match more with
    | 0 => throw .spent
    | more + 1 => loop round more s

def granted {σ β : Type} (round : σ → Reading (Round σ β)) (s : σ) : Reading β := fun r =>
  loop round r.remaining s r

def skipRound (p : Char → Bool) : Unit → Reading (Round Unit Unit) := fun _ => do
  match ← peek with
  | some c =>
    if p c then
      let _ ← advance
      return .again ()
    else return .done ()
  | none => return .done ()

def skipWhile (p : Char → Bool) : Reading Unit := granted (skipRound p) ()

def takeDigits (digit : Char → Bool) (mark : Position) : Nat → Reading (List Char)
  | 0 => return []
  | count + 1 => do
    match ← peek with
    | some c =>
      if digit c then
        let _ ← advance
        return c :: (← takeDigits digit mark count)
      else throw (.fault (.incompleteNumber mark))
    | none => throw (.fault (.incompleteNumber mark))

def readDecimal (mark : Position) (first : Char) (bytes : List UInt8) : Reading (List UInt8) := do
  let digits := first :: (← takeDigits Digits.isDecimal mark 2)
  if 255 < Digits.numeral 10 digits then
    throw (.fault (.escapeOutOfRange (String.ofList digits) mark))
  else return UInt8.ofNat (Digits.numeral 10 digits) :: bytes

def readHexadecimal (mark : Position) (bytes : List UInt8) : Reading (List UInt8) := do
  let digits ← takeDigits Digits.isHexadecimal mark 2
  match hexadecimalByte? digits with
  | some byte => return byte :: bytes
  | none => throw (.fault (.invalidHexadecimal (String.ofList digits) mark))

def readEscape (bytes : List UInt8) : Reading (List UInt8) := do
  let mark ← currentPlace
  match ← advance with
  | none => throw (.fault (.unterminatedEscape mark))
  | some c =>
    match simpleEscape? c with
    | some byte => return byte :: bytes
    | none =>
      if c = '\n' then
        skipWhile isGap
        return bytes
      else if Digits.isDecimal c then readDecimal mark c bytes
      else if c = 'x' then readHexadecimal mark bytes
      else throw (.fault (.invalidEscape c mark))

def stringRound (start : Position) (bytes : List UInt8) : Reading (Round (List UInt8) SExp) := do
  match ← advance with
  | none => throw (.fault (.unterminatedString start))
  | some c =>
    if c = '"' then return .done (.atom (String.ofList (Utf8.decodeLossy bytes.reverse)))
    else if c = '\\' then return .again (← readEscape bytes)
    else return .again ((String.utf8EncodeChar c).reverse ++ bytes)

def readString (start : Position) : Reading SExp := do
  let _ ← advance
  granted (stringRound start) []

def cut (start : Nat) : Reading SExp := fun r =>
  let text := String.ofList ((r.input.take r.position).drop start)
  .ok (.atom text) ⟨r.input, r.position, r.place, ⟨start, r.position, text⟩ :: r.bare⟩

def readAtom : Reading SExp := do
  let start ← currentPosition
  skipWhile fun c => !isDelimiter c
  cut start

def listRound (item : Reading SExp) (start : Position) (items : List SExp) :
    Reading (Round (List SExp) SExp) := do
  skipWhile isBlank
  match ← peek with
  | none => throw (.fault (.unterminatedList start))
  | some c =>
    if c = ')' then
      let _ ← advance
      return .done (.list items.reverse)
    else return .again ((← item) :: items)

def readListWith (item : Reading SExp) (start : Position) : Reading SExp := do
  let _ ← advance
  granted (listRound item start) []

def readExprWith (item : Reading SExp) : Reading SExp := do
  let start ← currentPlace
  match ← peek with
  | none => throw (.fault (.unexpectedEnd start))
  | some c =>
    if c = '(' then readListWith item start
    else if c = ')' then throw (.fault (.unexpectedClose start))
    else if c = '"' then readString start
    else readAtom

def nested : Nat → Reading SExp
  | 0 => readExprWith (throw .spent)
  | depth + 1 => readExprWith (nested depth)

def readExpr : Reading SExp := fun r => nested r.remaining r

def readList (start : Position) : Reading SExp := readListWith readExpr start

def readWhole : Reading SExp := do
  skipWhile isBlank
  match ← peek with
  | none => throw (.fault .empty)
  | some _ =>
    let tree ← readExpr
    skipWhile isBlank
    match ← peek with
    | none => return tree
    | some _ => throw (.fault (.trailing (← currentPlace)))

section
variable {α β σ : Type} {m : Reading α} {f : α → Reading β} {r r' : Reader} {a : α} {h : Halt}

theorem bind_ok (run : m r = .ok a r') : (m >>= f) r = f a r' := by
  show EStateM.bind m f r = _
  simp [EStateM.bind, run]

theorem bind_error (run : m r = .error h r') : (m >>= f) r = .error h r' := by
  show EStateM.bind m f r = _
  simp [EStateM.bind, run]

/-- How a run ends: with a result and a reader, or halted at a reader. -/
def Ends (run : EStateM.Result Halt Reader α) (good : α → Reader → Prop)
    (bad : Halt → Reader → Prop) : Prop :=
  match run with
  | .ok a r => good a r
  | .error h r => bad h r

theorem Ends.bind {good : β → Reader → Prop} {middle : α → Reader → Prop}
    {bad : Halt → Reader → Prop} (first : Ends (m r) middle bad)
    (later : ∀ a r', middle a r' → Ends (f a r') good bad) : Ends ((m >>= f) r) good bad := by
  cases run : m r with
  | ok a r' =>
    rw [run] at first
    rw [bind_ok run]
    exact later a r' first
  | error h r' =>
    rw [run] at first
    rw [bind_error run]
    exact first

theorem Ends.imp {run : EStateM.Result Halt Reader α} {good good' : α → Reader → Prop}
    {bad bad' : Halt → Reader → Prop} (ends : Ends run good bad)
    (better : ∀ a r, good a r → good' a r) (worse : ∀ h r, bad h r → bad' h r) :
    Ends run good' bad' := by
  cases run with
  | ok a r => exact better a r ends
  | error h r => exact worse h r ends

def Round.Holds (again : σ → Prop) (done : β → Prop) : Round σ β → Prop
  | .again s => again s
  | .done b => done b

variable {round : σ → Reading (Round σ β)} {good : β → Reader → Prop}
  {bad : Halt → Reader → Prop} {invariant : σ → Reader → Prop}

theorem loop_rounds (left : Nat → σ → Reader → Prop)
    (step : ∀ more s r, left more s r → Ends (round s r) (fun out r' => out.Holds
      (fun s' => match more with
        | 0 => bad .spent r'
        | more + 1 => left more s' r') fun b => good b r') bad)
    (more : Nat) (s : σ) (r : Reader) (holds : left more s r) :
    Ends (loop round more s r) good bad := by
  induction more generalizing s r with
  | zero =>
    rw [loop]
    refine (step 0 s r holds).bind ?_
    intro out r' after
    cases out with
    | done b => exact after
    | again s' => exact after
  | succ more ih =>
    rw [loop]
    refine (step (more + 1) s r holds).bind ?_
    intro out r' after
    cases out with
    | done b => exact after
    | again s' => exact ih s' r' after

/-- A loop with an invariant, in which every round that goes on takes a character, needs no more
rounds than characters remain. -/
theorem loop_ends (step : ∀ s r, invariant s r → Ends (round s r) (fun out r' =>
      out.Holds (fun s' => invariant s' r' ∧ r'.remaining < r.remaining) fun b => good b r') bad)
    (more : Nat) (s : σ) (r : Reader) (enough : r.remaining ≤ more) (holds : invariant s r) :
    Ends (loop round more s r) good bad := by
  refine loop_rounds (fun more s r => invariant s r ∧ r.remaining ≤ more) ?_ more s r
    ⟨holds, enough⟩
  rintro more s r ⟨holds, enough⟩
  refine (step s r holds).imp ?_ fun _ _ halted => halted
  intro out r' after
  cases out with
  | done b => exact after
  | again s' =>
    obtain ⟨still, fewer⟩ := after
    cases more with
    | zero => omega
    | succ more => exact ⟨still, by omega⟩

theorem loop_keeps (spent : ∀ r, bad .spent r) (step : ∀ s r, invariant s r →
      Ends (round s r) (fun out r' => out.Holds (fun s' => invariant s' r') fun b => good b r') bad)
    (more : Nat) (s : σ) (r : Reader) (holds : invariant s r) :
    Ends (loop round more s r) good bad := by
  refine loop_rounds (fun _ => invariant) ?_ more s r holds
  intro more s r holds
  refine (step s r holds).imp ?_ fun _ _ halted => halted
  intro out r' after
  cases out with
  | done b => exact after
  | again s' =>
    cases more with
    | zero => exact spent r'
    | succ more => exact after

end

section
variable {r : Reader} {c : Char} {cs ds : List Char}

theorem next_rest (r : Reader) : r.next = r.rest.head? := by
  simp [Reader.next, Reader.rest, List.head?_drop]

theorem rest_along (read : r.rest = cs ++ ds) : (r.along cs).rest = ds := by
  have behind : r.rest.drop cs.length = ds := by rw [read, List.drop_left]
  simpa [Reader.rest, Reader.along, Nat.add_comm] using behind

theorem rest_step (read : r.rest = c :: cs) : (r.along [c]).rest = cs :=
  rest_along (show r.rest = [c] ++ cs from read)

theorem along_along (r : Reader) (cs ds : List Char) :
    (r.along cs).along ds = r.along (cs ++ ds) := by
  simp [Reader.along, Position.along_append, Nat.add_assoc]

theorem along_nil (r : Reader) : r.along [] = r := rfl

theorem length_rest (r : Reader) : r.rest.length = r.remaining := by
  simp [Reader.rest, Reader.remaining]

theorem peek_run (r : Reader) : peek r = .ok r.next r := rfl

theorem placed_run (r : Reader) : currentPlace r = .ok r.place r := rfl

theorem position_run (r : Reader) : currentPosition r = .ok r.position r := rfl

theorem advance_run (next : r.next = some c) : advance r = .ok (some c) (r.along [c]) := by
  simp [advance, next, Reader.along, Position.along]

theorem advance_end (next : r.next = none) : advance r = .ok none r := by
  simp [advance, next]

theorem rest_next (next : r.next = some c) : ∃ cs, r.rest = c :: cs := by
  rw [next_rest] at next
  exact List.head?_eq_some_iff.mp next

theorem rest_end (next : r.next = none) : r.rest = [] := by
  rw [next_rest] at next
  exact List.head?_eq_none_iff.mp next

theorem fewer_along (read : r.rest = c :: cs) : (r.along [c]).remaining < r.remaining := by
  rw [← length_rest, ← length_rest, rest_along read, read]
  exact Nat.lt_succ_self cs.length

theorem skipRound_leads (p : Char → Bool) {target : Reader}
    (same : r.along (r.rest.takeWhile p) = target) : Ends (skipRound p () r)
      (fun out r' => out.Holds
        (fun _ => r'.along (r'.rest.takeWhile p) = target ∧ r'.remaining < r.remaining)
        fun _ => r' = target)
      fun _ _ => False := by
  rw [skipRound, bind_ok (peek_run r)]
  cases next : r.next with
  | none =>
    rw [rest_end next, List.takeWhile_nil, along_nil] at same
    exact same
  | some c =>
    obtain ⟨cs, read⟩ := rest_next next
    rw [read] at same
    by_cases skip : p c = true
    · rw [List.takeWhile_cons_of_pos skip, ← List.singleton_append, ← along_along] at same
      simp only [skip, ↓reduceIte, bind_ok (advance_run next)]
      exact ⟨by rw [rest_step read, same], fewer_along read⟩
    · rw [List.takeWhile_cons_of_neg skip, along_nil] at same
      simp only [skip]
      exact same

theorem skipWhile_run (p : Char → Bool) (r : Reader) :
    skipWhile p r = .ok () (r.along (r.rest.takeWhile p)) := by
  have ends : Ends (skipWhile p r) (fun _ r' => r' = r.along (r.rest.takeWhile p))
      fun _ _ => False :=
    loop_ends (fun _ _ => skipRound_leads p) r.remaining () r (Nat.le_refl _) rfl
  cases run : skipWhile p r with
  | ok _ r' =>
    rw [run] at ends
    rw [show r' = _ from ends]
  | error h r' =>
    rw [run] at ends
    exact ends.elim

theorem takeDigits_run (digit : Char → Bool) (mark : Position) (count : Nat) (r : Reader) :
    ∃ digits rest, r.rest = digits ++ rest ∧ (∀ d ∈ digits, digit d = true) ∧
      (digits.length = count ∧ takeDigits digit mark count r = .ok digits (r.along digits) ∨
        digits.length < count ∧ (∀ c ∈ rest.head?, digit c = false) ∧
          takeDigits digit mark count r =
            .error (.fault (.incompleteNumber mark)) (r.along digits)) := by
  induction count generalizing r with
  | zero => exact ⟨[], r.rest, rfl, by simp, .inl ⟨rfl, rfl⟩⟩
  | succ count ih =>
    rw [takeDigits, bind_ok (peek_run r)]
    cases next : r.next with
    | none => exact ⟨[], [], rest_end next, by simp, .inr ⟨Nat.zero_lt_succ count, by simp, rfl⟩⟩
    | some c =>
      obtain ⟨cs, read⟩ := rest_next next
      by_cases first : digit c = true
      · obtain ⟨digits, rest, more, all, outcome⟩ := ih (r.along [c])
        rw [rest_step read] at more
        have every : ∀ d ∈ c :: digits, digit d = true := List.forall_mem_cons.mpr ⟨first, all⟩
        refine ⟨c :: digits, rest, by rw [read, more]; rfl, every, ?_⟩
        rw [along_along] at outcome
        simp only [first, ↓reduceIte, bind_ok (advance_run next), List.length_cons]
        rcases outcome with ⟨enough, run⟩ | ⟨few, stop, run⟩
        · exact .inl ⟨congrArg (· + 1) enough, bind_ok run⟩
        · exact .inr ⟨Nat.succ_lt_succ few, stop, bind_error run⟩
      · have other : digit c = false := by simpa using first
        refine ⟨[], c :: cs, read, by simp, .inr ⟨Nat.zero_lt_succ count, by simpa using other, ?_⟩⟩
        simp only [other]
        rfl

def Named (bytes : List UInt8) (r : Reader) (cs : List Char)
    (run : EStateM.Result Halt Reader (List UInt8)) : Prop :=
  ∃ name byte rest, cs = name ++ rest ∧ Escape name byte ∧
    run = .ok (byte :: bytes) (r.along name)

def Refused (r : Reader) (cs : List Char) (run : EStateM.Result Halt Reader (List UInt8)) : Prop :=
  ∃ read rest cause, cs = read ++ rest ∧ BadEscape cs cause ∧
    run = .error (.fault (cause r.place)) (r.along read)

theorem readDecimal_run {c : Char} {cs : List Char} (first : Digits.isDecimal c = true)
    (bytes : List UInt8) (r : Reader) (read : r.rest = c :: cs) :
    Named bytes r (c :: cs) (readDecimal r.place c bytes (r.along [c])) ∨
      Refused r (c :: cs) (readDecimal r.place c bytes (r.along [c])) := by
  obtain ⟨digits, rest, more, all, outcome⟩ :=
    takeDigits_run Digits.isDecimal r.place 2 (r.along [c])
  rw [rest_step read] at more
  rw [along_along] at outcome
  have every : ∀ d ∈ c :: digits, Digits.isDecimal d = true :=
    List.forall_mem_cons.mpr ⟨first, all⟩
  rcases outcome with ⟨enough, run⟩ | ⟨few, stop, run⟩
  · obtain ⟨a, b, rfl⟩ := List.length_eq_two.mp enough
    rw [readDecimal, bind_ok run, numeral_three]
    by_cases above : 255 < decimalByte c a b
    · have bad := @BadEscape.outOfRange c a b rest every above
      rw [if_pos above, more]
      exact .inr ⟨[c, a, b], rest, _, rfl, bad, rfl⟩
    · rw [if_neg above, more]
      exact .inl ⟨[c, a, b], _, rest, rfl, .decimal every rfl (Nat.le_of_not_lt above), rfl⟩
  · have bad : BadEscape (c :: digits ++ rest) .incompleteNumber :=
      .shortDecimal (by simp) (Nat.succ_lt_succ few) every stop
    rw [readDecimal, bind_error run, more]
    exact .inr ⟨c :: digits, rest, _, rfl, bad, rfl⟩

theorem readHexadecimal_run {cs : List Char} (bytes : List UInt8) (r : Reader)
    (read : r.rest = 'x' :: cs) :
    Named bytes r ('x' :: cs) (readHexadecimal r.place bytes (r.along ['x'])) ∨
      Refused r ('x' :: cs) (readHexadecimal r.place bytes (r.along ['x'])) := by
  obtain ⟨digits, rest, more, all, outcome⟩ :=
    takeDigits_run Digits.isHexadecimal r.place 2 (r.along ['x'])
  rw [rest_step read] at more
  rw [along_along] at outcome
  rcases outcome with ⟨enough, run⟩ | ⟨few, stop, run⟩
  · obtain ⟨a, b, rfl⟩ := List.length_eq_two.mp enough
    rw [readHexadecimal, bind_ok run, hexadecimal_byte all]
    exact .inl ⟨['x', a, b], _, rest, by rw [more]; rfl, .hexadecimal all, rfl⟩
  · rw [readHexadecimal, bind_error run, more]
    exact .inr ⟨'x' :: digits, rest, _, rfl, .shortHexadecimal few all stop, rfl⟩

theorem continuation_run {cs : List Char} (r : Reader) (read : r.rest = '\n' :: cs) :
    ∃ gap rest, cs = gap ++ rest ∧ (∀ c ∈ gap, isGap c = true) ∧
      (∀ c ∈ rest.head?, isGap c = false) ∧
      skipWhile isGap (r.along ['\n']) = .ok () (r.along ('\n' :: gap)) := by
  have parts := List.takeWhile_append_dropWhile (p := isGap) (l := cs)
  have stop := List.head?_dropWhile_not isGap cs
  refine ⟨cs.takeWhile isGap, cs.dropWhile isGap, parts.symm, fun d => List.mem_takeWhile_imp,
    ?_, ?_⟩
  · intro d first
    simpa [Option.mem_def.mp first] using stop
  · rw [skipWhile_run, rest_step read, along_along]
    rfl

/-- The three ways of a backslash: a byte is named, a line is continued, or the escape is bad. -/
theorem readEscape_run (bytes : List UInt8) (r : Reader) :
    Named bytes r r.rest (readEscape bytes r) ∨
    (∃ gap rest, r.rest = '\n' :: gap ++ rest ∧ (∀ c ∈ gap, isGap c = true) ∧
      (∀ c ∈ rest.head?, isGap c = false) ∧
      readEscape bytes r = .ok bytes (r.along ('\n' :: gap))) ∨
    Refused r r.rest (readEscape bytes r) := by
  rw [readEscape, bind_ok (placed_run r)]
  cases next : r.next with
  | none =>
    rw [bind_ok (advance_end next), rest_end next]
    exact .inr (.inr ⟨[], [], _, rfl, .ended, rfl⟩)
  | some c =>
    obtain ⟨cs, read⟩ := rest_next next
    rw [bind_ok (advance_run next)]
    cases simple : simpleEscape? c with
    | some byte =>
      rw [read]
      exact .inl ⟨[c], byte, cs, rfl, simple_escape simple, by simp only [simple]; rfl⟩
    | none =>
      simp only [simple]
      by_cases newline : c = '\n'
      · subst newline
        obtain ⟨gap, rest, rfl, all, stop, skipped⟩ := continuation_run r read
        rw [if_pos rfl, bind_ok skipped]
        exact .inr (.inl ⟨gap, rest, read, all, stop, rfl⟩)
      rw [if_neg newline, read]
      by_cases decimal : Digits.isDecimal c = true
      · rw [if_pos decimal]
        exact (readDecimal_run decimal bytes r read).imp_right .inr
      rw [if_neg decimal]
      by_cases hex : c = 'x'
      · subst hex
        rw [if_pos rfl]
        exact (readHexadecimal_run bytes r read).imp_right .inr
      rw [if_neg hex]
      -- What no branch takes names no byte by itself either.
      have nameless : ∀ byte, ¬Escape [c] byte := by simp [escape_single_iff, simple]
      have bad := @BadEscape.unknown c cs nameless newline (by simpa using decimal) hex
      exact .inr (.inr ⟨[c], cs, _, rfl, bad, rfl⟩)

def Ready (r : Reader) : Prop := ∃ c, r.next = some c ∧ isBlank c = false

def Reader.atom (r : Reader) : Bare :=
  let word := r.rest.takeWhile fun c => !isDelimiter c
  ⟨r.position, r.position + word.length, String.ofList word⟩

theorem cut_text (r : Reader) (read : r.rest = cs ++ ds) :
    (r.input.take (r.position + cs.length)).drop r.position = cs := by
  rw [List.drop_take, Nat.add_sub_cancel_left]
  show r.rest.take cs.length = cs
  rw [read, List.take_left]

theorem readAtom_run (r : Reader) : readAtom r = .ok (.atom r.atom.text)
    { r.along (r.rest.takeWhile fun c => !isDelimiter c) with bare := r.atom :: r.bare } := by
  have text := cut_text r (List.takeWhile_append_dropWhile (p := fun c => !isDelimiter c)).symm
  rw [readAtom, bind_ok (position_run r), bind_ok (skipWhile_run _ r)]
  simp only [cut, Reader.along, text]
  rfl

theorem skipped_ready {r r' : Reader} (skipped : r' = r.along (r.rest.takeWhile isBlank))
    (next : r'.next = some c) : isBlank c = false := by
  have stop := List.head?_dropWhile_not isBlank r.rest
  rw [next_rest, skipped, rest_along List.takeWhile_append_dropWhile.symm] at next
  simpa [next] using stop

end
end TypedContracts.SExp
