import TypedContracts.Proofs.SExp.Lexing

/-!
Reading accepts exactly the grammar. `flat` is the row of tokens of a tree; the reader finds the
tree of which the tokens it was given are that row, and the rows of tokens that the grammar finds in
a text are those of the trees that the text derives.
-/
namespace TypedContracts.SExp
open TypedContracts.Text

variable {ending : Position}

mutual
def flat : SExp → List Token
  | .atom text => [.atom text]
  | .list items => .opening :: (flatItems items ++ [.closing])
def flatItems : List SExp → List Token
  | [] => []
  | item :: rest => flat item ++ flatItems rest
end

mutual
theorem flat_clean : (tree : SExp) → Clean (flat tree)
  | .atom text => by simp [Clean, flat, Token.isFault]
  | .list items => by
    have inner := flatItems_clean items
    intro t member
    simp only [flat, List.mem_cons, List.mem_append, List.not_mem_nil, or_false] at member
    rcases member with rfl | inside | rfl
    · rfl
    · exact inner t inside
    · rfl
theorem flatItems_clean : (items : List SExp) → Clean (flatItems items)
  | [] => by simp [Clean, flatItems]
  | item :: rest => by
    intro t member
    rcases List.mem_append.mp member with first | later
    · exact flat_clean item t first
    · exact flatItems_clean rest t later
end

theorem flatItems_append (xs ys : List SExp) :
    flatItems (xs ++ ys) = flatItems xs ++ flatItems ys := by
  induction xs with
  | nil => rfl
  | cons x xs ih => simp [flatItems, ih]

def flatOpened : List Opened → List Token
  | [] => []
  | inner :: stack => flatOpened stack ++ .opening :: flatItems inner.items.reverse

theorem flatOpened_push (inner : Opened) (stack : List Opened) (item : SExp) :
    flatOpened (inner.push item :: stack) = flatOpened (inner :: stack) ++ flat item := by
  simp [flatOpened, Opened.push, flatItems_append, flatItems]

theorem alone_ok {tree result : SExp} {ls : List Lexeme} (h : alone tree ls = .ok result) :
    ls = [] ∧ tree = result := by
  cases ls with
  | nil => exact ⟨rfl, Except.ok.inj h⟩
  | cons l ls => simp [alone] at h

/-- A token that is read moves to the stack, so the tokens read and unread together stay the same
until they are those of the result. -/
theorem assemble_tokens {stack : List Opened} {ls : List Lexeme} {tree : SExp}
    (h : assemble ending stack ls = .ok tree) : flatOpened stack ++ tokens ls = flat tree := by
  fun_induction assemble ending stack ls with
  | case1 => simp at h
  | case2 => simp at h
  | case3 => simp at h
  | case4 stack pos rest ih =>
    have next := ih h
    simpa [flatOpened, flatItems, tokens] using next
  | case5 => simp at h
  | case6 inner pos rest =>
    obtain ⟨rfl, rfl⟩ := alone_ok h
    simp [flatOpened, tokens, flat, Opened.close]
  | case7 inner outer stack pos rest ih =>
    have next := ih h
    rw [flatOpened_push] at next
    simpa [flatOpened, tokens, flat, Opened.close] using next
  | case8 pos text rest =>
    obtain ⟨rfl, rfl⟩ := alone_ok h
    simp [flatOpened, tokens, flat]
  | case9 inner stack pos text rest ih =>
    have next := ih h
    rw [flatOpened_push] at next
    simpa [tokens, flat] using next

theorem tokens_of_list {ls : List Lexeme} {items : List SExp}
    (same : tokens ls = flat (.list items)) : ∃ start inside finish,
      ls = ⟨start, .opening⟩ :: (inside ++ [⟨finish, .closing⟩]) ∧
        tokens inside = flatItems items := by
  obtain ⟨⟨start, _⟩, more, rfl, rfl, moreSame⟩ := List.map_eq_cons_iff.mp same
  obtain ⟨inside, last, rfl, insideSame, lastSame⟩ := List.map_eq_append_iff.mp moreSame
  obtain ⟨⟨finish, _⟩, rfl, rfl⟩ := List.map_eq_singleton_iff.mp lastSame
  exact ⟨start, inside, finish, rfl, insideSame⟩

def Opened.extend (o : Opened) (items : List SExp) : Opened := ⟨o.pos, items.reverse ++ o.items⟩

mutual
theorem assemble_tree : (tree : SExp) → ∀ (ls rest : List Lexeme) (inner : Opened)
    (stack : List Opened), tokens ls = flat tree →
    assemble ending (inner :: stack) (ls ++ rest) =
      assemble ending (inner.push tree :: stack) rest
  | .atom text => by
    intro ls rest inner stack same
    match ls, same with
    | [⟨pos, .atom _⟩], same =>
      obtain rfl : _ = text := by simpa [tokens, flat] using same
      rfl
  | .list items => by
    intro ls rest inner stack same
    obtain ⟨start, inside, finish, rfl, insideSame⟩ := tokens_of_list same
    have run := assemble_items items inside (⟨finish, .closing⟩ :: rest) ⟨start, []⟩
      (inner :: stack) insideSame
    simp only [List.cons_append, List.append_assoc, List.nil_append]
    rw [assemble, run]
    simp [Opened.extend, assemble, Opened.close]
theorem assemble_items : (items : List SExp) → ∀ (ls rest : List Lexeme) (inner : Opened)
    (stack : List Opened), tokens ls = flatItems items →
    assemble ending (inner :: stack) (ls ++ rest) =
      assemble ending (inner.extend items :: stack) rest
  | [] => by
    intro ls rest inner stack same
    obtain rfl : ls = [] := by simpa [tokens, flatItems] using same
    rfl
  | item :: items => by
    intro ls rest inner stack same
    obtain ⟨first, later, rfl, firstSame, laterSame⟩ := List.map_eq_append_iff.mp same
    rw [List.append_assoc, assemble_tree item first _ inner stack firstSame,
      assemble_items items later rest _ stack laterSame]
    simp [Opened.extend, Opened.push]
end

theorem assemble_whole {tree : SExp} {ls : List Lexeme} (same : tokens ls = flat tree)
    (rest : List Lexeme) : assemble ending [] (ls ++ rest) = alone tree rest := by
  match tree, same with
  | .atom text, same =>
    obtain ⟨⟨pos, _⟩, rfl, rfl⟩ := List.map_eq_singleton_iff.mp same
    rfl
  | .list items, same =>
    obtain ⟨start, inside, finish, rfl, insideSame⟩ := tokens_of_list same
    have run := @assemble_items ending items inside (⟨finish, .closing⟩ :: rest) ⟨start, []⟩ []
      insideSame
    simp only [List.cons_append, List.append_assoc, List.nil_append]
    rw [assemble, run]
    simp [Opened.extend, assemble, Opened.close]

theorem single_iff_flat (ls : List Lexeme) (tree : SExp) :
    single ending ls = .ok tree ↔ tokens ls = flat tree := by
  cases ls with
  | nil => cases tree <;> simp [single, tokens, flat]
  | cons l ls =>
    constructor
    · exact assemble_tokens
    · intro same
      simpa [single, alone] using assemble_whole same []

theorem lexes_blanks {before cs : List Char} {ts : List Token} (blanks : Blanks before)
    (rest : Lexes cs ts) : Lexes (before ++ cs) ts := by
  induction before with
  | nil => exact rest
  | cons c before ih =>
    have tail : Blanks before := fun d member => blanks d (List.mem_cons_of_mem c member)
    exact .blank (blanks c List.mem_cons_self) (ih tail)

mutual
theorem expression_lexes : ∀ {e : List Char} {tree : SExp}, Expression e tree →
    ∀ (rest : List Char) (us : List Token), (Word e → Apart rest) → Lexes rest us →
      Lexes (e ++ rest) (flat tree ++ us)
  | _, _, .word bare => by
    intro rest us apart after
    exact .word bare (apart bare) after
  | _, _, .quoted inside => by
    intro rest us _ after
    simpa [flat] using Lexes.quoted inside after
  | _, _, .list inside => by
    intro rest us _ after
    have close : Apart (')' :: rest) := apart_cons.mpr (by decide)
    have inner := items_lex inside (')' :: rest) (.closing :: us) close (.closing after)
    simpa [flat] using Lexes.opening inner
theorem items_lex : ∀ {cs : List Char} {items : List SExp}, Items cs items →
    ∀ (rest : List Char) (us : List Token), Apart rest → Lexes rest us →
      Lexes (cs ++ rest) (flatItems items ++ us)
  | _, _, .nil => by
    intro rest us _ after
    exact after
  | _, _, .blank blank tail => by
    intro rest us apart after
    exact .blank blank (items_lex tail rest us apart after)
  | _, _, .item first apart tail => by
    intro rest us last after
    have later := items_lex tail rest us last after
    have here := expression_lexes first _ _ (fun bare => apart_append (apart bare) fun _ => last)
      later
    simpa [flatItems] using here
end

theorem lexes_blanks_of_nil {cs : List Char} (h : Lexes cs []) : Blanks cs := by
  induction cs with
  | nil => simp [Blanks]
  | cons c cs ih =>
    rcases (lexes_cons_iff _ _ _).mp h with ⟨blank, rest⟩ | ⟨_, _, eq, _⟩ | ⟨_, _, eq, _⟩ |
      ⟨_, _, _, _, _, _, _, eq, _⟩ | ⟨_, _, _, _, _, _, _, eq, _⟩
    · intro d member
      rcases List.mem_cons.mp member with rfl | later
      · exact blank
      · exact ih rest d later
    all_goals simp at eq

/-- Up to the first character that is no blank, a row of tokens says nothing of the text. -/
theorem lexes_skip {cs : List Char} {ts : List Token} (h : Lexes cs ts) (present : ts ≠ []) :
    ∃ before c rest, cs = before ++ c :: rest ∧ Blanks before ∧ isBlank c = false ∧
      Lexes (c :: rest) ts := by
  induction cs with
  | nil => exact absurd ((lexes_nil_iff ts).mp h) present
  | cons c cs ih =>
    by_cases blank : isBlank c = true
    · obtain ⟨before, d, rest, rfl, blanks, solid, tail⟩ := ih ((lexes_blank_iff blank cs ts).mp h)
      refine ⟨c :: before, d, rest, rfl, ?_, solid, tail⟩
      intro e member
      rcases List.mem_cons.mp member with rfl | later
      · exact blank
      · exact blanks e later
    · exact ⟨[], c, cs, rfl, by simp [Blanks], by simpa using blank, h⟩

theorem lexes_opening_split {cs : List Char} {us : List Token} (h : Lexes cs (.opening :: us)) :
    ∃ before rest, cs = before ++ '(' :: rest ∧ Blanks before ∧ Lexes rest us := by
  obtain ⟨before, c, rest, rfl, blanks, solid, tail⟩ := lexes_skip h (by simp)
  rcases (lexes_cons_iff _ _ _).mp tail with ⟨blank, _⟩ | ⟨rfl, _, eq, inner⟩ | ⟨_, _, eq, _⟩ |
    ⟨_, _, _, _, _, _, _, eq, _⟩ | ⟨_, _, _, _, _, _, _, eq, _⟩
  · simp [solid] at blank
  · obtain ⟨_, rfl⟩ := List.cons.inj eq
    exact ⟨before, rest, rfl, blanks, inner⟩
  all_goals simp [quotedAtom] at eq

theorem lexes_closing_split {cs : List Char} {us : List Token} (h : Lexes cs (.closing :: us)) :
    ∃ before rest, cs = before ++ ')' :: rest ∧ Blanks before ∧ Lexes rest us := by
  obtain ⟨before, c, rest, rfl, blanks, solid, tail⟩ := lexes_skip h (by simp)
  rcases (lexes_cons_iff _ _ _).mp tail with ⟨blank, _⟩ | ⟨_, _, eq, _⟩ | ⟨rfl, _, eq, inner⟩ |
    ⟨_, _, _, _, _, _, _, eq, _⟩ | ⟨_, _, _, _, _, _, _, eq, _⟩
  · simp [solid] at blank
  · simp at eq
  · obtain ⟨_, rfl⟩ := List.cons.inj eq
    exact ⟨before, rest, rfl, blanks, inner⟩
  all_goals simp [quotedAtom] at eq

theorem lexes_atom_split {cs : List Char} {text : String} {us : List Token}
    (h : Lexes cs (.atom text :: us)) :
    ∃ before e rest, cs = before ++ e ++ rest ∧ Blanks before ∧ Expression e (.atom text) ∧
      (Word e → Apart rest) ∧ Lexes rest us := by
  obtain ⟨before, c, rest, rfl, blanks, solid, tail⟩ := lexes_skip h (by simp)
  rcases (lexes_cons_iff _ _ _).mp tail with ⟨blank, _⟩ | ⟨_, _, eq, _⟩ | ⟨_, _, eq, _⟩ |
    ⟨rfl, body, ds, bytes, _, rfl, spelling, eq, after⟩ |
    ⟨_, w, ds, _, same, bare, apart, eq, after⟩
  · simp [solid] at blank
  · simp at eq
  · simp at eq
  · obtain ⟨atom, rfl⟩ := List.cons.inj eq
    obtain rfl : text = String.ofList (Utf8.decodeLossy bytes) := by
      simpa [quotedAtom] using atom
    refine ⟨before, '"' :: body ++ ['"'], ds, by simp, blanks, .quoted spelling, ?_, after⟩
    intro bare
    exact absurd (bare.2 '"' (by simp)) (by decide)
  · obtain ⟨atom, rfl⟩ := List.cons.inj eq
    obtain rfl : text = String.ofList w := by simpa using atom
    exact ⟨before, w, ds, by simp [same], blanks, .word bare, fun _ => apart, after⟩

theorem items_after_blanks {before cs : List Char} {items : List SExp} (blanks : Blanks before)
    (rest : Items cs items) : Items (before ++ cs) items := by
  induction before with
  | nil => exact rest
  | cons c before ih =>
    have tail : Blanks before := fun d member => blanks d (List.mem_cons_of_mem c member)
    exact .blank (blanks c List.mem_cons_self) (ih tail)

theorem items_then_blanks : ∀ {cs : List Char} {items : List SExp}, Items cs items →
    ∀ (after : List Char), Blanks after → Items (cs ++ after) items
  | _, _, .nil => by
    intro after blanks
    simpa using items_after_blanks blanks .nil
  | _, _, .blank blank tail => by
    intro after blanks
    exact .blank blank (items_then_blanks tail after blanks)
  | _, _, .item first apart tail => by
    intro after blanks
    rw [List.append_assoc]
    exact .item first (fun bare => apart_append (apart bare) fun _ => apart_blanks blanks)
      (items_then_blanks tail after blanks)

mutual
theorem expression_of_lexes : (tree : SExp) → ∀ (cs : List Char) (us : List Token),
    Lexes cs (flat tree ++ us) →
      ∃ before e rest, cs = before ++ e ++ rest ∧ Blanks before ∧ Expression e tree ∧
        (Word e → Apart rest) ∧ Lexes rest us
  | .atom text => by
    intro cs us h
    exact lexes_atom_split h
  | .list items => by
    intro cs us h
    have whole : Lexes cs (.opening :: (flatItems items ++ .closing :: us)) := by
      simpa [flat] using h
    obtain ⟨before, tail, rfl, blanks, inside⟩ := lexes_opening_split whole
    obtain ⟨inner, last, rfl, row, closing⟩ := items_of_lexes items _ _ inside
    obtain ⟨gap, rest, rfl, gapBlanks, after⟩ := lexes_closing_split closing
    refine ⟨before, '(' :: (inner ++ gap) ++ [')'], rest, by simp, blanks,
      .list (items_then_blanks row gap gapBlanks), ?_, after⟩
    intro bare
    exact absurd (bare.2 '(' (by simp)) (by decide)
theorem items_of_lexes : (items : List SExp) → ∀ (cs : List Char) (us : List Token),
    Lexes cs (flatItems items ++ us) →
      ∃ inner rest, cs = inner ++ rest ∧ Items inner items ∧ Lexes rest us
  | [] => by
    intro cs us h
    exact ⟨[], cs, rfl, .nil, h⟩
  | item :: items => by
    intro cs us h
    have split : Lexes cs (flat item ++ (flatItems items ++ us)) := by
      simpa [flatItems] using h
    obtain ⟨before, e, tail, rfl, blanks, first, apart, later⟩ := expression_of_lexes item _ _ split
    obtain ⟨inner, rest, rfl, row, after⟩ := items_of_lexes items _ _ later
    refine ⟨before ++ (e ++ inner), rest, by simp, ?_, after⟩
    exact items_after_blanks blanks
      (.item first (fun bare => apart_of_append (apart bare)) row)
end

theorem denotes_iff_lexes (cs : List Char) (tree : SExp) :
    Denotes cs tree ↔ Lexes cs (flat tree) := by
  constructor
  · rintro ⟨before, e, after, rfl, blanks, afterBlanks, expression⟩
    have last : Lexes after [] := by simpa using lexes_blanks afterBlanks .nil
    have here := expression_lexes expression after [] (fun _ => apart_blanks afterBlanks) last
    simpa using lexes_blanks blanks here
  · intro h
    obtain ⟨before, e, after, rfl, blanks, expression, _, rest⟩ :=
      expression_of_lexes tree cs [] (by simpa using h)
    exact ⟨before, e, after, rfl, blanks, lexes_blanks_of_nil rest, expression⟩

theorem parse_iff_denotes (text : String) (tree : SExp) :
    parse text = .ok tree ↔ Denotes text.toList tree := by
  rw [denotes_iff_lexes, ← lexemes_iff_lexes _ (flat_clean tree)]
  exact single_iff_flat (lexemes text.toList) tree

/-- The reader accepts a text with a tree exactly when the grammar derives that tree from the text,
and the grammar derives no other. -/
theorem reader_accepts_exactly_grammar (text : String) :
    (∀ tree, parse text = .ok tree ↔ Denotes text.toList tree) ∧
      ∀ tree other, Denotes text.toList tree → Denotes text.toList other → tree = other := by
  refine ⟨parse_iff_denotes text, ?_⟩
  intro tree other first second
  have read := (parse_iff_denotes text tree).mpr first
  have again := (parse_iff_denotes text other).mpr second
  exact Except.ok.inj (read.symm.trans again)

theorem reader_accepts_touching_items :
    let text := " (map\"\\097\\\n \t\\x62\"(c\\d)\"\")\n"
    let tree := SExp.list [.atom "map", .atom "ab", .list [.atom "c\\d"], .atom ""]
    parse text = .ok tree ∧ Denotes text.toList tree ∧
      ∀ other, Denotes text.toList other → other = tree := by
  intro text tree
  have exactly := reader_accepts_exactly_grammar text
  have accepted : parse text = .ok tree := by cbv
  have derived := (exactly.1 tree).mp accepted
  exact ⟨accepted, derived, fun other also => exactly.2 other tree also derived⟩

end TypedContracts.SExp
