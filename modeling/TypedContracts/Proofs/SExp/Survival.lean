import TypedContracts.Proofs.SExp.Escapes
import TypedContracts.Proofs.SExp.Printing

/-!
Which trees come back when they are printed and read again. Printer and reader agree on what a
quoted atom shows by itself or by a letter. They part where the printer spells a character by its
number: braces are no escape for the reader, and for a null character it wants two more digits,
which it then takes from the text.
-/
namespace TypedContracts.SExp
open TypedContracts.Text

/-- Quoted text neither shows the character nor has a letter for it. -/
def SpeltByNumber (c : Char) : Prop :=
  escapeChar c = ['\\', '0'] ∨
    ∃ digits, escapeChar c = ['\\', 'u', '\x7b'] ++ digits ++ ['\x7d']

mutual
def atoms : SExp → List String
  | .atom text => [text]
  | .list items => atomsAmong items
def atomsAmong : List SExp → List String
  | [] => []
  | item :: rest => atoms item ++ atomsAmong rest
end

/-- Some quoted atom holds a character that is spelt by its number. -/
def Garbled (tree : SExp) : Prop :=
  ∃ text ∈ atoms tree, needsQuotes text.toList = true ∧ ∃ c ∈ text.toList, SpeltByNumber c

/-- What a quoted atom is read back as, if at all. A null character swallows two digits. -/
inductive Rereads : List Char → List Char → Prop where
  | nil : Rereads [] []
  | shown {c : Char} {cs ds : List Char} (showable : Showable c) (rest : Rereads cs ds) :
      Rereads (c :: cs) (c :: ds)
  | null {a b : Char} {cs ds : List Char} (first : Digits.isDecimal a = true)
      (second : Digits.isDecimal b = true) (rest : Rereads cs ds) :
      Rereads (Char.ofNat 0 :: a :: b :: cs)
        (Char.ofNat (10 * Digits.value a + Digits.value b) :: ds)

def Lettered (c : Char) : Prop :=
  ∃ letter byte, escapeChar c = ['\\', letter] ∧ simpleEscape? letter = some byte ∧
    String.utf8EncodeChar c = [byte]

theorem showable_cases {c : Char} (showable : Showable c) :
    Lettered c ∨ (escapeChar c = [c] ∧ c ≠ '"' ∧ c ≠ '\\') := by
  by_cases tab : c = '\t'
  · subst tab
    exact .inl ⟨'t', 9, by decide, by decide, by decide⟩
  by_cases newline : c = '\n'
  · subst newline
    exact .inl ⟨'n', 10, by decide, by decide, by decide⟩
  by_cases carriage : c = '\r'
  · subst carriage
    exact .inl ⟨'r', 13, by decide, by decide, by decide⟩
  by_cases quote : c = '"'
  · subst quote
    exact .inl ⟨'"', 34, by decide, by decide, by decide⟩
  by_cases backslash : c = '\\'
  · subst backslash
    exact .inl ⟨'\\', 92, by decide, by decide, by decide⟩
  obtain ⟨null, hidden⟩ : c ≠ Char.ofNat 0 ∧ isHidden c = false := by
    simpa [Showable, tab, newline, carriage] using showable
  have plain : escapeChar c = [c] := by
    simp [escapeChar, tab, newline, carriage, quote, backslash, null, hidden]
  exact .inr ⟨plain, quote, backslash⟩

theorem unshowable_cases {c : Char} (unshowable : ¬Showable c) :
    c = Char.ofNat 0 ∨ ∃ digits, escapeChar c = ['\\', 'u', '\x7b'] ++ digits ++ ['\x7d'] := by
  by_cases null : c = Char.ofNat 0
  · exact .inl null
  have other : ∀ d, Showable d → c ≠ d := by
    intro d shown equal
    rw [equal] at unshowable
    exact unshowable shown
  have tab := other '\t' (by simp [Showable])
  have newline := other '\n' (by simp [Showable])
  have carriage := other '\r' (by simp [Showable])
  have quote := other '"' (.inr (by decide))
  have backslash := other '\\' (.inr (by decide))
  have hidden : isHidden c = true := by
    simpa [Showable, tab, newline, carriage, null] using unshowable
  refine .inr ⟨Digits.hexadecimal c.toNat, ?_⟩
  simp [escapeChar, null, tab, newline, carriage, quote, backslash, hidden]

theorem unshowable_iff (c : Char) : ¬Showable c ↔ SpeltByNumber c := by
  constructor
  · intro unshowable
    rcases unshowable_cases unshowable with null | braces
    · subst null
      exact .inl (by decide)
    · exact .inr braces
  · intro numbered showable
    rcases showable_cases showable with ⟨letter, byte, spelt, simple, _⟩ | ⟨plain, _, _⟩
    · rcases numbered with null | ⟨digits, braces⟩
      · obtain rfl : letter = '0' := by simpa [spelt] using null
        simp [simpleEscape?] at simple
      · simp [spelt] at braces
    · rcases numbered with null | ⟨digits, braces⟩
      · simp [plain] at null
      · simp [plain] at braces

theorem escaped_digit {c d : Char} {tail : List Char} (digit : Digits.isDecimal d = true)
    (spelt : escapeChar c = d :: tail) : escapeChar c = [c] ∧ d = c ∧ tail = [] := by
  have notBackslash : d ≠ '\\' := by
    intro equal
    rw [equal] at digit
    exact absurd digit (by decide)
  by_cases showable : Showable c
  · rcases showable_cases showable with ⟨letter, byte, backslash, _⟩ | ⟨plain, _⟩
    · simp [backslash, notBackslash.symm] at spelt
    · rw [plain] at spelt
      obtain ⟨same, last⟩ := List.cons.inj spelt
      exact ⟨plain, same.symm, last.symm⟩
  · rcases unshowable_cases showable with null | ⟨digits, braces⟩
    · have backslash : escapeChar c = ['\\', '0'] := by simp [null, escapeChar]
      simp [backslash, notBackslash.symm] at spelt
    · simp [braces, notBackslash.symm] at spelt

theorem inside_raw_iff {c : Char} (quote : c ≠ '"') (backslash : c ≠ '\\') (bytes : List UInt8)
    (cs : List Char) (ts : List Token) :
    Inside [] bytes (c :: cs) ts ↔
      Inside [] ((String.utf8EncodeChar c).reverse ++ bytes) cs ts := by
  have spells := spelling_raw_iff quote backslash
  rw [inside_hold_iff [] (fun equal => absurd equal quote),
    inside_release_iff (String.utf8EncodeChar c) (by simpa using spells)]

theorem inside_backslash_iff (c : Char) (bytes : List UInt8) (cs : List Char) (ts : List Token) :
    Inside [] bytes ('\\' :: c :: cs) ts ↔ Inside ['\\', c] bytes cs ts := by
  rw [inside_hold_iff [] (fun equal => absurd equal (by decide)),
    inside_hold_iff ([] ++ ['\\']) (fun _ => spelling_no_lone_backslash)]
  rfl

theorem inside_letter_iff {c : Char} {byte : UInt8} (simple : simpleEscape? c = some byte)
    (bytes : List UInt8) (cs : List Char) (ts : List Token) :
    Inside [] bytes ('\\' :: c :: cs) ts ↔ Inside [] (byte :: bytes) cs ts := by
  rw [inside_backslash_iff, inside_release_iff [byte] (by simpa using spelling_simple_iff simple)]
  rfl

theorem inside_shown_iff {c : Char} (showable : Showable c) (bytes : List UInt8)
    (cs : List Char) (ts : List Token) :
    Inside [] bytes (escapeChar c ++ cs) ts ↔
      Inside [] ((String.utf8EncodeChar c).reverse ++ bytes) cs ts := by
  rcases showable_cases showable with ⟨letter, byte, spelt, simple, encoded⟩ |
    ⟨plain, quote, backslash⟩
  · rw [spelt, encoded]
    exact inside_letter_iff simple bytes cs ts
  · rw [plain]
    exact inside_raw_iff quote backslash bytes cs ts

theorem inside_brace_refused (bytes : List UInt8) (cs : List Char) (ts : List Token) :
    ¬Inside [] bytes ('\\' :: 'u' :: cs) ts := by
  rw [inside_backslash_iff]
  apply inside_refused
  intro body found spelling
  obtain ⟨c, ds, equal, cases⟩ := spelling_backslash_cases spelling
  obtain ⟨rfl, _⟩ := List.cons.inj equal
  rcases cases with ⟨byte, _, simple, _⟩ | ⟨newline, _⟩ | ⟨a, b, _, _, _, digits, _⟩ | ⟨hex, _⟩
  · simp [simpleEscape?] at simple
  · exact absurd newline (by decide)
  · exact absurd (digits 'u' List.mem_cons_self) (by decide)
  · exact absurd hex (by decide)

theorem inside_null {bytes : List UInt8} {cs : List Char} {ts : List Token}
    (inside : Inside [] bytes ('\\' :: '0' :: cs) ts) :
    ∃ a b rest, cs = a :: b :: rest ∧ Digits.isDecimal a = true ∧ Digits.isDecimal b = true ∧
      Inside [] (UInt8.ofNat (10 * Digits.value a + Digits.value b) :: bytes) rest ts := by
  have zero : Digits.isDecimal '0' = true := by decide
  obtain ⟨body, ds, found, us, equal, spelling, tokens, later⟩ :=
    (inside_backslash_iff '0' bytes cs ts).mp inside
  obtain ⟨a, b, rest, more, bodyEqual, first, second, _, bytesEqual, tail⟩ :=
    spelling_decimal_cases zero spelling
  have number : decimalByte '0' a b = 10 * Digits.value a + Digits.value b := by
    have none : Digits.value '0' = 0 := by decide
    simp [decimalByte, none]
  rw [number] at bytesEqual
  have given : body = a :: b :: rest := bodyEqual
  refine ⟨a, b, rest ++ '"' :: ds, by simp [equal, given], first, second, ?_⟩
  exact ⟨rest, ds, more, us, rfl, tail, by simp [tokens, bytesEqual], later⟩

theorem two_digits_below {a b : Char} (first : Digits.isDecimal a = true)
    (second : Digits.isDecimal b = true) : 10 * Digits.value a + Digits.value b < 128 := by
  have bounded : ∀ c, Digits.isDecimal c = true → Digits.value c < 10 := by
    intro c digit
    obtain ⟨lower, upper⟩ : '0' ≤ c ∧ c ≤ '9' := by simpa [Digits.isDecimal] using digit
    have above : c.toNat ≤ '9'.toNat := upper
    have nine : '9'.toNat - '0'.toNat = 9 := by decide
    rw [Digits.value, if_pos digit]
    omega
  have a' := bounded a first
  have b' := bounded b second
  omega

theorem escaped_digit_first {d : Char} {cs text rest : List Char}
    (digit : Digits.isDecimal d = true)
    (equal : cs.flatMap escapeChar ++ '"' :: text = d :: rest) :
    ∃ ds, cs = d :: ds ∧ ds.flatMap escapeChar ++ '"' :: text = rest := by
  cases cs with
  | nil =>
    obtain ⟨rfl, _⟩ := List.cons.inj equal
    exact absurd digit (by decide)
  | cons c cs =>
    have present : escapeChar c ≠ [] := by
      unfold escapeChar
      split_ifs <;> simp
    obtain ⟨e, tail, spelt⟩ := List.exists_cons_of_ne_nil present
    have first : e = d := by simp_all
    rw [first] at spelt
    obtain ⟨plain, same, _⟩ := escaped_digit digit spelt
    rw [List.flatMap_cons, plain] at equal
    exact ⟨cs, by rw [same], (List.cons.inj equal).2⟩

theorem inside_escaped : ∀ (cs : List Char) {bytes : List UInt8} {text : List Char}
    {ts : List Token}, Inside [] bytes (cs.flatMap escapeChar ++ '"' :: text) ts →
    ∃ ds us, Rereads cs ds ∧ ts = quotedAtom ((Utf8.encode ds).reverse ++ bytes) :: us ∧
      Lexes text us
  | [], bytes, text, ts, inside => by
    obtain ⟨us, tokens, later⟩ := (inside_closing_iff bytes text ts).mp inside
    exact ⟨[], us, .nil, tokens, later⟩
  | c :: cs, bytes, text, ts, inside => by
    rw [List.flatMap_cons, List.append_assoc] at inside
    by_cases showable : Showable c
    · have further := (inside_shown_iff showable _ _ _).mp inside
      obtain ⟨ds, us, reread, tokens, later⟩ := inside_escaped cs further
      exact ⟨c :: ds, us, .shown showable reread, by simpa [Utf8.encode] using tokens, later⟩
    rcases unshowable_cases showable with null | ⟨digits, braces⟩
    · subst null
      obtain ⟨a, b, rest, equal, first, second, further⟩ := inside_null inside
      obtain ⟨ds, csEqual, restEqual⟩ := escaped_digit_first first equal
      obtain ⟨es, dsEqual, endEqual⟩ := escaped_digit_first second restEqual
      subst csEqual dsEqual endEqual
      obtain ⟨fs, us, reread, tokens, later⟩ := inside_escaped es further
      refine ⟨_, us, .null first second reread, ?_, later⟩
      simpa [Utf8.encode, ascii_encoded (two_digits_below first second)] using tokens
    · rw [braces] at inside
      exact absurd inside (inside_brace_refused _ _ _)

/-- Rereading shortens a text unless every character was shown. -/
theorem reread_length {cs ds : List Char} (reread : Rereads cs ds) :
    ds.length ≤ cs.length ∧ (ds.length = cs.length → ∀ c ∈ cs, Showable c) := by
  induction reread with
  | nil => simp
  | shown showable rest ih =>
    obtain ⟨bound, all⟩ := ih
    constructor
    · simpa using bound
    · intro equal
      have shown := all (by simpa using equal)
      simpa [showable] using shown
  | null first second rest ih =>
    have bound := ih.1
    simp only [List.length_cons]
    constructor
    · omega
    · intro equal
      omega

mutual
theorem legible_iff_atoms : (tree : SExp) → (Legible tree ↔
    ∀ text ∈ atoms tree, needsQuotes text.toList = true → ∀ c ∈ text.toList, Showable c)
  | .atom text => by simp [Legible, atoms]
  | .list items => by
    rw [Legible, atoms]
    exact legibleItems_iff_atoms items
theorem legibleItems_iff_atoms : (items : List SExp) → (LegibleItems items ↔
    ∀ text ∈ atomsAmong items, needsQuotes text.toList = true → ∀ c ∈ text.toList, Showable c)
  | [] => by simp [LegibleItems, atomsAmong]
  | item :: rest => by
    rw [LegibleItems, legible_iff_atoms item, legibleItems_iff_atoms rest, atomsAmong,
      List.forall_mem_append]
end

theorem legible_iff (tree : SExp) : Legible tree ↔ ¬Garbled tree := by
  rw [legible_iff_atoms, Garbled]
  simp only [← unshowable_iff, not_exists, not_and, not_not]

theorem atom_back {text : String} {rest : List Char} {us : List Token} (apart : Apart rest)
    (lexes : Lexes (renderAtom text.toList ++ rest) (.atom text :: us)) :
    Legible (.atom text) ∧ Lexes rest us := by
  unfold renderAtom at lexes
  split at lexes
  · have inside : Inside [] [] (text.toList.flatMap escapeChar ++ '"' :: rest) (.atom text :: us) := by
      rw [← lexes_quote_iff]
      simpa [quoted] using lexes
    obtain ⟨ds, vs, reread, tokens, later⟩ := inside_escaped text.toList inside
    obtain ⟨same, rfl⟩ : text = String.ofList ds ∧ us = vs := by
      simpa [quotedAtom, Utf8.decodeLossy_encode] using tokens
    have whole : ds.length = text.toList.length := by rw [same, String.toList_ofList]
    exact ⟨fun _ => (reread_length reread).2 whole, later⟩
  · rename_i plain
    have bare := plain_word (by simpa using plain)
    obtain ⟨vs, tokens, later⟩ := (lexes_word_iff bare apart _).mp lexes
    obtain ⟨_, rfl⟩ := List.cons.inj tokens
    refine ⟨?_, later⟩
    intro quotes
    exact absurd quotes plain

theorem renderRest_apart (items : List SExp) (rest : List Char) :
    Apart (renderRest items ++ rest) := by
  cases items with
  | nil => exact apart_cons.mpr (by decide)
  | cons item items => exact apart_cons.mpr (by decide)

theorem lexes_rest_iff (items : List SExp) (rest : List Char) (ts : List Token) :
    Lexes (renderRest items ++ rest) ts ↔ Lexes (renderItems items ++ rest) ts := by
  have space : isBlank ' ' = true := by decide
  cases items with
  | nil => rfl
  | cons item items => exact lexes_blank_iff space _ ts

mutual
theorem tree_back : (tree : SExp) → ∀ (rest : List Char) (us : List Token), Apart rest →
    Lexes (renderChars tree ++ rest) (flat tree ++ us) → Legible tree ∧ Lexes rest us
  | .atom text => by
    intro rest us apart lexes
    exact atom_back apart lexes
  | .list items => by
    intro rest us apart lexes
    have opened : Lexes ('(' :: (renderItems items ++ rest))
        (.opening :: (flatItems items ++ .closing :: us)) := by
      simpa [renderChars, flat] using lexes
    obtain ⟨vs, tokens, inner⟩ := (lexes_opening_iff _ _).mp opened
    obtain ⟨_, rfl⟩ := List.cons.inj tokens
    exact items_back items rest us inner
theorem items_back : (items : List SExp) → ∀ (rest : List Char) (us : List Token),
    Lexes (renderItems items ++ rest) (flatItems items ++ .closing :: us) →
      LegibleItems items ∧ Lexes rest us
  | [] => by
    intro rest us lexes
    obtain ⟨vs, tokens, after⟩ := (lexes_closing_iff _ _).mp lexes
    obtain ⟨_, rfl⟩ := List.cons.inj tokens
    exact ⟨trivial, after⟩
  | item :: items => by
    intro rest us lexes
    have first : Lexes (renderChars item ++ (renderRest items ++ rest))
        (flat item ++ (flatItems items ++ .closing :: us)) := by
      simpa [renderItems, flatItems] using lexes
    obtain ⟨legible, later⟩ := tree_back item _ _ (renderRest_apart items rest) first
    obtain ⟨others, after⟩ := items_back items rest us ((lexes_rest_iff items rest _).mp later)
    exact ⟨⟨legible, others⟩, after⟩
end

theorem legible_of_parse_render {tree : SExp} (same : parse (render tree) = .ok tree) :
    Legible tree := by
  have lexes : Lexes (renderChars tree ++ []) (flat tree ++ []) := by
    rw [parse_iff_denotes, denotes_iff_lexes, render, String.toList_ofList] at same
    simpa using same
  exact (tree_back tree [] [] apart_nil lexes).1

/-- A tree comes back from its printed form exactly when it is not garbled; the printed form of a
garbled tree is refused or read as another tree. -/
theorem printed_tree_survives_iff (tree : SExp) :
    (parse (render tree) = .ok tree ↔ ¬Garbled tree) ∧
      (Garbled tree → (∃ fault, parse (render tree) = .error fault) ∨
        ∃ other, parse (render tree) = .ok other ∧ other ≠ tree) := by
  have survives : parse (render tree) = .ok tree ↔ ¬Garbled tree := by
    rw [← legible_iff]
    exact ⟨legible_of_parse_render, parse_render tree⟩
  refine ⟨survives, ?_⟩
  intro garbled
  cases outcome : parse (render tree) with
  | error fault => exact .inl ⟨fault, rfl⟩
  | ok other =>
    right
    refine ⟨other, rfl, ?_⟩
    intro same
    rw [same] at outcome
    exact survives.mp outcome garbled

theorem null_before_digits_lost :
    let tree := SExp.list [.atom "", .atom (String.ofList [' ', Char.ofNat 0, '1', '0'])]
    Garbled tree ∧ parse (render tree) = .ok (.list [.atom "", .atom " \n"]) ∧
      parse (render tree) ≠ .ok tree := by
  intro tree
  have garbled : Garbled tree := by
    refine ⟨String.ofList [' ', Char.ofNat 0, '1', '0'], by simp [tree, atoms, atomsAmong], ?_⟩
    rw [String.toList_ofList]
    exact ⟨by decide, Char.ofNat 0, by simp, .inl (by decide)⟩
  have read : parse (render tree) = .ok (.list [.atom "", .atom " \n"]) := by cbv
  exact ⟨garbled, read, fun same => (printed_tree_survives_iff tree).1.mp same garbled⟩

end TypedContracts.SExp
