import TypedContracts.Proofs.SExp.Machine

/-!
The reader makes progress. Each function goes forward within the input, halts only by what it
reports, and where no blank is next an expression takes a character or halts. So no loop needs more
rounds than characters remain, the nesting granted makes no difference, and the descent comes to
what parsing comes to on every text.
-/
namespace TypedContracts.SExp
open TypedContracts.Text

def Bare.Sound (input : List Char) (b : Bare) : Prop :=
  b.start < b.stop ∧ b.stop ≤ input.length ∧
    b.text = String.ofList ((input.take b.stop).drop b.start)

/-- On from one reader to another; the atoms obtained on the way are as they may be. -/
structure Goes (may : Bare → Prop) (r r' : Reader) : Prop where
  input : r'.input = r.input
  forward : r.position ≤ r'.position
  within : r'.position ≤ r.input.length
  bare : ∃ more, r'.bare = more ++ r.bare ∧ ∀ b ∈ more, may b

/-- A run that goes on from `r` and is not spent. -/
def Runs {α : Type} (may : Bare → Prop) (r : Reader) (run : EStateM.Result Halt Reader α)
    (good : α → Reader → Prop) : Prop :=
  Ends run (fun a r' => Goes may r r' ∧ good a r') fun h r' => Goes may r r' ∧ h ≠ .spent

section
variable {α β σ : Type} {may : Bare → Prop} {r r' r'' : Reader} {c : Char} {cs ds : List Char}

theorem Goes.refl (within : r.Within) : Goes may r r :=
  ⟨rfl, Nat.le_refl _, within, [], rfl, by simp⟩

theorem Goes.trans (first : Goes may r r') (second : Goes may r' r'') : Goes may r r'' := by
  obtain ⟨one, before, oneMay⟩ := first.bare
  obtain ⟨two, behind, twoMay⟩ := second.bare
  refine ⟨second.input.trans first.input, Nat.le_trans first.forward second.forward, ?_,
    two ++ one, by rw [behind, before, List.append_assoc], ?_⟩
  · rw [← first.input]
    exact second.within
  · intro b member
    rcases List.mem_append.mp member with late | early
    · exact twoMay b late
    · exact oneMay b early

theorem Goes.stays (goes : Goes may r r') : r'.Within := by
  rw [Reader.Within, goes.input]
  exact goes.within

theorem Goes.fewer (goes : Goes may r r') (progress : r.position < r'.position) :
    r'.remaining < r.remaining := by
  have within := goes.within
  rw [Reader.remaining, Reader.remaining, goes.input]
  omega

theorem goes_along (within : r.Within) (read : r.rest = cs ++ ds) : Goes may r (r.along cs) := by
  have length : cs.length + ds.length = r.input.length - r.position := by
    rw [← List.length_append, ← read, length_rest, Reader.remaining]
  have inside : r.position ≤ r.input.length := within
  refine ⟨rfl, Nat.le_add_right _ _, ?_, [], rfl, by simp⟩
  show r.position + cs.length ≤ r.input.length
  omega

theorem goes_step (within : r.Within) (read : r.rest = c :: cs) : Goes may r (r.along [c]) :=
  goes_along within (show r.rest = [c] ++ cs from read)

theorem Runs.imp {run : EStateM.Result Halt Reader α} {good good' : α → Reader → Prop}
    (runs : Runs may r run good) (better : ∀ a r', Goes may r r' → good a r' → good' a r') :
    Runs may r run good' :=
  Ends.imp runs (fun a r' both => ⟨both.1, better a r' both.1 both.2⟩) fun _ _ both => both

theorem Runs.before {run : EStateM.Result Halt Reader α} {good : α → Reader → Prop}
    (goes : Goes may r r') (runs : Runs may r' run good) : Runs may r run good :=
  Ends.imp runs (fun _ _ both => ⟨goes.trans both.1, both.2⟩)
    fun _ _ both => ⟨goes.trans both.1, both.2⟩

theorem Runs.bind {m : Reading α} {f : α → Reading β} {middle : α → Reader → Prop}
    {good : β → Reader → Prop} (first : Runs may r (m r) middle)
    (later : ∀ a r', Goes may r r' → middle a r' → Runs may r' (f a r') good) :
    Runs may r ((m >>= f) r) good := by
  refine Ends.bind first ?_
  intro a r' both
  exact Runs.before both.1 (later a r' both.1 both.2)

def Advances (r : Reader) (out : Round σ β) (r' : Reader) : Prop :=
  out.Holds (fun _ => r.position < r'.position) fun _ => True

theorem runs_granted {round : σ → Reading (Round σ β)} (within : r.Within)
    (step : ∀ s r', Goes may r r' → Runs may r' (round s r') (Advances r')) (s : σ) :
    Runs may r (granted round s r) fun _ _ => True := by
  have onward : ∀ s r', Goes may r r' → Ends (round s r') (fun out r'' => out.Holds
      (fun _ => Goes may r r'' ∧ r''.remaining < r'.remaining) fun _ => Goes may r r'' ∧ True)
      fun h r'' => Goes may r r'' ∧ h ≠ .spent := by
    intro s r' here
    refine Ends.imp (step s r' here) ?_ fun _ _ both => ⟨here.trans both.1, both.2⟩
    intro out r'' both
    obtain ⟨goes, advances⟩ := both
    cases out with
    | done b => exact ⟨here.trans goes, trivial⟩
    | again s' => exact ⟨here.trans goes, goes.fewer advances⟩
  exact loop_ends onward r.remaining s r (Nat.le_refl _) (.refl within)

theorem runs_advance (within : r.Within) : Runs may r (advance r) fun out r' =>
    out = r.next ∧ (r.next ≠ none → r.position < r'.position) := by
  cases next : r.next with
  | none =>
    rw [advance_end next]
    exact ⟨.refl within, rfl, by simp⟩
  | some c =>
    obtain ⟨cs, read⟩ := rest_next next
    rw [advance_run next]
    exact ⟨goes_step within read, rfl, fun _ => Nat.lt_succ_self _⟩

theorem runs_skipWhile (within : r.Within) (p : Char → Bool) :
    Runs may r (skipWhile p r) fun _ r' => r' = r.along (r.rest.takeWhile p) := by
  rw [skipWhile_run]
  exact ⟨goes_along within List.takeWhile_append_dropWhile.symm, rfl⟩

theorem runs_takeDigits (within : r.Within) (digit : Char → Bool) (mark : Position) (count : Nat) :
    Runs may r (takeDigits digit mark count r) fun _ _ => True := by
  obtain ⟨digits, rest, read, _, ⟨_, run⟩ | ⟨_, _, run⟩⟩ := takeDigits_run digit mark count r
  · rw [run]
    exact ⟨goes_along within read, trivial⟩
  · rw [run]
    exact ⟨goes_along within read, by simp⟩

theorem runs_readEscape (within : r.Within) (bytes : List UInt8) :
    Runs may r (readEscape bytes r) fun _ _ => True := by
  rcases readEscape_run bytes r with ⟨name, byte, rest, read, _, run⟩ |
    ⟨gap, rest, read, _, _, run⟩ | ⟨read, rest, cause, text, _, run⟩
  · rw [run]
    exact ⟨goes_along within read, trivial⟩
  · rw [run]
    exact ⟨goes_along within read, trivial⟩
  · rw [run]
    exact ⟨goes_along within text, by simp⟩

theorem runs_stringRound (within : r.Within) (start : Position) (bytes : List UInt8) :
    Runs may r (stringRound start bytes r) (Advances r) := by
  refine (runs_advance within).bind ?_
  intro out r' goes taken
  obtain ⟨same, progress⟩ := taken
  cases out with
  | none => exact ⟨.refl goes.stays, by simp⟩
  | some c =>
    have further : r.position < r'.position := progress (by simp [← same])
    dsimp only
    split
    · exact ⟨.refl goes.stays, trivial⟩
    split
    · refine (runs_readEscape goes.stays bytes).bind ?_
      intro more r'' later _
      exact ⟨.refl later.stays, Nat.lt_of_lt_of_le further later.forward⟩
    · exact ⟨.refl goes.stays, further⟩

theorem runs_readString (within : r.Within) (start : Position) :
    Runs may r (readString start r) fun _ r' => r.next ≠ none → r.position < r'.position := by
  refine (runs_advance within).bind ?_
  intro out r' goes taken
  refine (runs_granted goes.stays
    (fun bytes r'' here => runs_stringRound here.stays start bytes) []).imp ?_
  intro tree r'' later _ present
  exact Nat.lt_of_lt_of_le (taken.2 present) later.forward

theorem atom_sound (within : r.Within) (ready : Ready r) (next : r.next = some c)
    (opening : c ≠ '(') (closing : c ≠ ')') (quote : c ≠ '"') : r.atom.Sound r.input := by
  have parts := (List.takeWhile_append_dropWhile (p := fun c => !isDelimiter c) (l := r.rest)).symm
  have goes : Goes (fun _ => True) r (r.along (r.rest.takeWhile fun c => !isDelimiter c)) :=
    goes_along within parts
  obtain ⟨d, same, solid⟩ := ready
  obtain rfl : c = d := by simpa [next] using same
  obtain ⟨cs, read⟩ := rest_next next
  have word : isDelimiter c = false := (not_delimiter_iff c).mpr ⟨solid, opening, closing, quote⟩
  have taken : (r.rest.takeWhile fun c => !isDelimiter c) =
      c :: cs.takeWhile fun c => !isDelimiter c := by
    rw [read, List.takeWhile_cons_of_pos (by simpa using word)]
  refine ⟨?_, goes.within, by rw [Reader.atom, cut_text r parts]⟩
  simp only [Reader.atom, taken, List.length_cons]
  omega

theorem runs_readAtom (within : r.Within) (allowed : may r.atom) :
    Runs may r (readAtom r) fun _ r' => r'.position = r.atom.stop := by
  have goes : Goes may r (r.along (r.rest.takeWhile fun c => !isDelimiter c)) :=
    goes_along within List.takeWhile_append_dropWhile.symm
  rw [readAtom_run]
  exact ⟨⟨goes.input, goes.forward, goes.within, [r.atom], rfl, by simpa using allowed⟩, rfl⟩

theorem runs_listRound {item : Reading SExp} (within : r.Within)
    (items : ∀ r', Goes may r r' → Ready r' → Runs may r' (item r') fun _ r'' =>
      r'.position < r''.position) (start : Position) (found : List SExp) :
    Runs may r (listRound item start found r) (Advances r) := by
  refine (runs_skipWhile within isBlank).bind ?_
  intro _ r' goes skipped
  rw [bind_ok (peek_run r')]
  cases next : r'.next with
  | none => exact ⟨.refl goes.stays, by simp⟩
  | some c =>
    have solid := skipped_ready skipped next
    dsimp only
    split
    · refine (runs_advance goes.stays).bind ?_
      intro _ r'' later _
      exact ⟨.refl later.stays, trivial⟩
    · refine (items r' goes ⟨c, next, solid⟩).bind ?_
      intro tree r'' later progress
      exact ⟨.refl later.stays, Nat.lt_of_le_of_lt goes.forward progress⟩

theorem runs_readListWith {item : Reading SExp} (within : r.Within) (items : ∀ r', Goes may r r' →
      (r.next ≠ none → r.position < r'.position) → Ready r' →
        Runs may r' (item r') fun _ r'' => r'.position < r''.position) (start : Position) :
    Runs may r (readListWith item start r) fun _ r' => r.next ≠ none →
      r.position < r'.position := by
  refine (runs_advance within).bind ?_
  intro out r' goes taken
  have inner : ∀ r₁, Goes may r' r₁ → Ready r₁ →
      Runs may r₁ (item r₁) fun _ r₂ => r₁.position < r₂.position := by
    intro r₁ later ready
    refine items r₁ (goes.trans later) (fun present => ?_) ready
    exact Nat.lt_of_lt_of_le (taken.2 present) later.forward
  refine (runs_granted goes.stays (fun found r₁ here => runs_listRound here.stays
    (fun r₂ later => inner r₂ (here.trans later)) start found) []).imp ?_
  intro tree r'' later _ present
  exact Nat.lt_of_lt_of_le (taken.2 present) later.forward

theorem runs_readExprWith {item : Reading SExp} (within : r.Within) (items : ∀ r', Goes may r r' →
      r.position < r'.position → Ready r' →
        Runs may r' (item r') fun _ r'' => r'.position < r''.position)
    (allowed : ∀ c, r.next = some c → c ≠ '(' → c ≠ ')' → c ≠ '"' → may r.atom) :
    Runs may r (readExprWith item r) fun _ r' => Ready r → r.position < r'.position := by
  rw [readExprWith, bind_ok (placed_run r), bind_ok (peek_run r)]
  cases next : r.next with
  | none => exact ⟨.refl within, by simp⟩
  | some c =>
    have present : r.next ≠ none := by simp [next]
    dsimp only
    split
    · exact (runs_readListWith within (fun r' goes progress => items r' goes (progress present))
        r.place).imp fun _ _ _ further _ => further present
    split
    · exact ⟨.refl within, by simp⟩
    split
    · exact (runs_readString within r.place).imp fun _ _ _ further _ => further present
    · rename_i opening closing quote
      refine (runs_readAtom within (allowed c next opening closing quote)).imp ?_
      intro tree r' goes stop ready
      rw [stop]
      exact (atom_sound within ready next opening closing quote).1

/-- An expression takes at least one character where one stands that is no blank. It takes no more
than the nesting granted, and all atoms it obtains from there are sound. -/
theorem runs_nested {input : List Char} (sound : ∀ b, Bare.Sound input b → may b) (depth : Nat)
    (r : Reader) (within : r.Within) (same : r.input = input) (enough : r.remaining ≤ depth)
    (allowed : ∀ c, r.next = some c → c ≠ '(' → c ≠ ')' → c ≠ '"' → may r.atom) :
    Runs may r (nested depth r) fun _ r' => Ready r → r.position < r'.position := by
  induction depth generalizing r with
  | zero =>
    refine runs_readExprWith within (fun r' goes progress _ => ?_) allowed
    have fewer := goes.fewer progress
    omega
  | succ depth ih =>
    refine runs_readExprWith within (fun r' goes progress ready => ?_) allowed
    have fewer := goes.fewer progress
    have input' : r'.input = input := goes.input.trans same
    refine (ih r' goes.stays input' (by omega) ?_).imp fun _ _ _ further => further ready
    intro c next opening closing quote
    refine sound _ ?_
    rw [← input']
    exact atom_sound goes.stays ready next opening closing quote

theorem runs_readExpr (sound : ∀ b, Bare.Sound r.input b → may b) (within : r.Within)
    (allowed : ∀ c, r.next = some c → c ≠ '(' → c ≠ ')' → c ≠ '"' → may r.atom) :
    Runs may r (readExpr r) fun _ r' => Ready r → r.position < r'.position :=
  runs_nested sound r.remaining r within rfl (Nat.le_refl _) allowed

theorem runs_readItem (sound : ∀ b, Bare.Sound r.input b → may b) (within : r.Within)
    (ready : Ready r) : Runs may r (readExpr r) fun _ r' => r.position < r'.position := by
  refine (runs_readExpr sound within ?_).imp fun _ _ _ further => further ready
  intro c next opening closing quote
  exact sound _ (atom_sound within ready next opening closing quote)

theorem runs_readList (sound : ∀ b, Bare.Sound r.input b → may b) (within : r.Within)
    (start : Position) : Runs may r (readList start r) fun _ r' => r.next ≠ none →
      r.position < r'.position := by
  refine runs_readListWith within (fun r' goes _ ready => ?_) start
  rw [← goes.input] at sound
  exact runs_readItem sound goes.stays ready

theorem runs_readWhole (sound : ∀ b, Bare.Sound r.input b → may b) (within : r.Within) :
    Runs may r (readWhole r) fun _ _ => True := by
  refine (runs_skipWhile within isBlank).bind ?_
  intro _ r' goes skipped
  rw [bind_ok (peek_run r')]
  cases next : r'.next with
  | none => exact ⟨.refl goes.stays, by simp⟩
  | some c =>
    have solid := skipped_ready skipped next
    rw [← goes.input] at sound
    refine (runs_readItem sound goes.stays ⟨c, next, solid⟩).bind ?_
    intro tree r₁ read _
    refine (runs_skipWhile read.stays isBlank).bind ?_
    intro _ r₂ behind _
    rw [bind_ok (peek_run r₂)]
    cases r₂.next with
    | none => exact ⟨.refl behind.stays, trivial⟩
    | some d => exact ⟨.refl behind.stays, by simp⟩

end

section
variable {α β σ : Type} {r r' : Reader} {item item' : Reading SExp}

abbrev anyBare : Bare → Prop := fun _ => True

theorem bind_congr_at {m m' : Reading α} {f g : α → Reading β} (first : m r = m' r)
    (later : ∀ a r', m r = .ok a r' → f a r' = g a r') : (m >>= f) r = (m' >>= g) r := by
  cases run : m r with
  | ok a r' => rw [bind_ok run, bind_ok (first ▸ run), later a r' run]
  | error h r' => rw [bind_error run, bind_error (first ▸ run)]

theorem loop_congr {round round' : σ → Reading (Round σ β)} {invariant : Reader → Prop}
    (same : ∀ s r, invariant r → round s r = round' s r)
    (kept : ∀ s r s' r', invariant r → round s r = .ok (.again s') r' → invariant r')
    (more : Nat) (s : σ) (r : Reader) (holds : invariant r) :
    loop round more s r = loop round' more s r := by
  induction more generalizing s r with
  | zero =>
    rw [loop, loop]
    exact bind_congr_at (same s r holds) fun _ _ _ => rfl
  | succ more ih =>
    rw [loop, loop]
    refine bind_congr_at (same s r holds) ?_
    intro out r' run
    cases out with
    | done b => rfl
    | again s' => exact ih s' r' (kept s r s' r' holds run)

theorem listRound_congr (same : ∀ r', Goes anyBare r r' → Ready r' → item r' = item' r')
    (within : r.Within) (start : Position) (found : List SExp) :
    listRound item start found r = listRound item' start found r := by
  refine bind_congr_at rfl ?_
  intro _ r' run
  have skipped : r' = r.along (r.rest.takeWhile isBlank) := by
    rw [skipWhile_run] at run
    simpa using run.symm
  have goes : Goes anyBare r r' := by
    rw [skipped]
    exact goes_along within List.takeWhile_append_dropWhile.symm
  rw [bind_ok (peek_run r'), bind_ok (peek_run r')]
  cases next : r'.next with
  | none => rfl
  | some c =>
    have solid := skipped_ready skipped next
    dsimp only
    split
    · rfl
    · exact bind_congr_at (same r' goes ⟨c, next, solid⟩) fun _ _ _ => rfl

/-- Which item an expression reads depends on the reader of items only behind the bracket. -/
theorem readExprWith_congr (within : r.Within)
    (items : ∀ r', Goes anyBare r r' → r.position < r'.position → Ready r' →
      item r' = item' r' ∧ Runs anyBare r' (item r') fun _ r'' => r'.position < r''.position) :
    readExprWith item r = readExprWith item' r := by
  rw [readExprWith, readExprWith, bind_ok (placed_run r), bind_ok (placed_run r),
    bind_ok (peek_run r), bind_ok (peek_run r)]
  cases next : r.next with
  | none => rfl
  | some c =>
    dsimp only
    split
    · rw [readListWith, readListWith, bind_ok (advance_run next), bind_ok (advance_run next)]
      obtain ⟨cs, read⟩ := rest_next next
      have bracket : Goes anyBare r (r.along [c]) := goes_step within read
      have inner : ∀ r₁, Goes anyBare (r.along [c]) r₁ → Ready r₁ → item r₁ = item' r₁ ∧
          Runs anyBare r₁ (item r₁) fun _ r₂ => r₁.position < r₂.position := by
        intro r₁ here ready
        exact items r₁ (bracket.trans here) here.forward ready
      have rounds : ∀ found r₁, Goes anyBare (r.along [c]) r₁ →
          listRound item r.place found r₁ = listRound item' r.place found r₁ := by
        intro found r₁ here
        exact listRound_congr (fun r₂ later ready => (inner r₂ (here.trans later) ready).1)
          here.stays r.place found
      have kept : ∀ found r₁ more r₂, Goes anyBare (r.along [c]) r₁ →
          listRound item r.place found r₁ = .ok (.again more) r₂ →
            Goes anyBare (r.along [c]) r₂ := by
        intro found r₁ more r₂ here run
        have round := runs_listRound here.stays
          (fun r₃ later ready => (inner r₃ (here.trans later) ready).2) r.place found
        rw [run] at round
        exact here.trans round.1
      exact loop_congr rounds kept _ [] _ (.refl bracket.stays)
    all_goals rfl

theorem runs_enough {depth : Nat} (within : r.Within) (enough : r.remaining ≤ depth)
    (ready : Ready r) : Runs anyBare r (nested depth r) fun _ r' => r.position < r'.position :=
  (runs_nested (fun _ _ => trivial) depth r within rfl enough fun _ _ _ _ _ => trivial).imp
    fun _ _ _ further => further ready

theorem nested_enough (depth : Nat) (within : r.Within) (enough : r.remaining ≤ depth) :
    nested depth r = readExpr r := by
  induction depth using Nat.strongRecOn generalizing r with
  | ind depth ih =>
    rw [readExpr]
    cases left : r.remaining with
    | zero =>
      cases depth with
      | zero => rfl
      | succ depth =>
        refine (readExprWith_congr within fun r' goes progress _ => ?_).symm
        have fewer := goes.fewer progress
        omega
    | succ k =>
      cases depth with
      | zero => omega
      | succ depth =>
        refine readExprWith_congr within fun r' goes progress ready => ?_
        have fewer := goes.fewer progress
        have one := ih depth (Nat.lt_succ_self depth) goes.stays (by omega)
        have two := ih k (by omega) goes.stays (by omega)
        exact ⟨one.trans two.symm, runs_enough goes.stays (by omega) ready⟩

theorem readExpr_unfolds (within : r.Within) : readExpr r = readExprWith readExpr r := by
  rw [← nested_enough (r.remaining + 1) within (Nat.le_succ _)]
  refine readExprWith_congr within fun r' goes progress ready => ?_
  have fewer := goes.fewer progress
  exact ⟨nested_enough r.remaining goes.stays (by omega), runs_enough goes.stays (by omega) ready⟩

end

inductive Operation where
  | advance
  | skipBlanks
  | expr
  | list (start : Position)
  | string (start : Position)
  | escape (bytes : List UInt8)
  | digits (digit : Char → Bool) (mark : Position) (count : Nat)
  | atom
  | whole

def Operation.run : Operation → Reading Unit
  | .advance => discard SExp.advance
  | .skipBlanks => skipWhile isBlank
  | .expr => discard readExpr
  | .list start => discard (readList start)
  | .string start => discard (readString start)
  | .escape bytes => discard (readEscape bytes)
  | .digits digit mark count => discard (takeDigits digit mark count)
  | .atom => discard readAtom
  | .whole => discard readWhole

theorem runs_discard {α : Type} {may : Bare → Prop} {r : Reader} {m : Reading α}
    {good : α → Reader → Prop} (runs : Runs may r (m r) good) :
    Runs may r (discard m r) fun _ _ => True := by
  show Runs may r ((m >>= fun _ => pure ()) r) _
  exact runs.bind fun _ _ goes _ => ⟨.refl goes.stays, trivial⟩

theorem runs_operation {r : Reader} (within : r.Within) (op : Operation) :
    Runs anyBare r (op.run r) fun _ _ => True := by
  have any : ∀ b, Bare.Sound r.input b → anyBare b := fun _ _ => trivial
  cases op with
  | advance => exact runs_discard (runs_advance within)
  | skipBlanks => exact (runs_skipWhile within isBlank).imp fun _ _ _ _ => trivial
  | expr => exact runs_discard (runs_readExpr any within fun _ _ _ _ _ => trivial)
  | list start => exact runs_discard (runs_readList any within start)
  | string start => exact runs_discard (runs_readString within start)
  | escape bytes => exact runs_discard (runs_readEscape within bytes)
  | digits digit mark count => exact runs_discard (runs_takeDigits within digit mark count)
  | atom => exact runs_discard (runs_readAtom within trivial)
  | whole => exact runs_discard (runs_readWhole any within)

/-- Every loop, begun anywhere, ends when as many rounds may follow the first as characters remain.
A list and a string took a character before their first round. -/
structure LoopsEnd (r : Reader) : Prop where
  /-- Over blanks, over the gap of a continued line, and over an unquoted atom. -/
  skip : ∀ p, Runs anyBare r (loop (skipRound p) r.remaining () r) fun _ _ => True
  string : ∀ start bytes,
    Runs anyBare r (loop (stringRound start) r.remaining bytes r) fun _ _ => True
  list : ∀ start items,
    Runs anyBare r (loop (listRound readExpr start) r.remaining items r) fun _ _ => True

theorem loops_end {r : Reader} (within : r.Within) : LoopsEnd r where
  skip p := (runs_skipWhile within p).imp fun _ _ _ _ => trivial
  string start bytes :=
    runs_granted within (fun bytes _ here => runs_stringRound here.stays start bytes) bytes
  list start items := runs_granted within (fun items _ here => runs_listRound here.stays
    (fun _ later ready => runs_readItem (fun _ _ => trivial) later.stays ready) start items) items

def outcome {α : Type} : EStateM.Result Halt Reader α → Except Halt α
  | .ok a _ => .ok a
  | .error h _ => .error h

theorem readWhole_parses (text : String) :
    outcome (readWhole (.fresh text.toList)) = (parse text).mapError .fault := by
  have followed := readWhole_followed (Scan.start.read text.toList).pos (.fresh text.toList)
  have ended := @runs_readWhole anyBare (.fresh text.toList) (fun _ _ => trivial) (Nat.zero_le _)
  have start : (Reader.fresh text.toList).lexemes = scan .origin .between text.toList := rfl
  rw [start, ← parse_eq_scan] at followed
  cases run : readWhole (.fresh text.toList) with
  | ok tree r =>
    rw [run] at followed
    rw [show parse text = _ from followed]
    rfl
  | error h r =>
    rw [run] at followed ended
    cases h with
    | fault cause =>
      rw [show parse text = _ from followed]
      rfl
    | spent => exact absurd rfl ended.2

theorem reader_progresses :
    (∀ r : Reader, r.Within →
      (∀ op : Operation, Runs anyBare r (op.run r) fun _ _ => True) ∧ LoopsEnd r ∧
      (Ready r → Runs (Bare.Sound r.input) r (readExpr r) fun _ r' => r.position < r'.position) ∧
      (∀ start, Runs (Bare.Sound r.input) r (readList start r) fun _ _ => True) ∧
      (Runs (Bare.Sound r.input) r (readWhole r) fun _ _ => True) ∧
      readExpr r = readExprWith readExpr r) ∧
    ∀ text : String, outcome (readWhole (.fresh text.toList)) = (parse text).mapError .fault := by
  refine ⟨fun r within => ⟨runs_operation within, loops_end within, fun ready => ?_,
    fun start => ?_, ?_, readExpr_unfolds within⟩, readWhole_parses⟩
  · exact runs_readItem (fun _ sound => sound) within ready
  · exact (runs_readList (fun _ sound => sound) within start).imp fun _ _ _ _ => trivial
  · exact runs_readWhole (fun _ sound => sound) within

theorem open_list_progresses :
    let r := Reader.fresh "(ab ".toList
    r.Within ∧ Ready r ∧
      readExpr r = .error (.fault (.unterminatedList ⟨1, 1⟩))
        ⟨"(ab ".toList, 4, ⟨1, 5⟩, [⟨1, 3, "ab"⟩]⟩ ∧
      Runs (Bare.Sound r.input) r (readExpr r) fun _ r' => r.position < r'.position := by
  intro r
  have within : r.Within := Nat.zero_le _
  have ready : Ready r := ⟨'(', by decide, by decide⟩
  obtain ⟨_, _, expression, _⟩ := reader_progresses.1 r within
  exact ⟨within, ready, by cbv, expression ready⟩

end TypedContracts.SExp
