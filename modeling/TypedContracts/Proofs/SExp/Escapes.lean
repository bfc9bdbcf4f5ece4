import TypedContracts.Proofs.SExp.Reading
import TypedContracts.Proofs.Text.Utf8

/-!
Strings as a dump writes them: the bytes of the text one by one, the printable ones raw or behind a
backslash, all others by three digits, with a line break wherever the writer likes. Reading gives
the string back, however many lists stand around it.
-/
namespace TypedContracts.SExp
open TypedContracts.Text

def threeDigits (n : Nat) : List Char :=
  [Nat.digitChar (n / 100), Nat.digitChar (n / 10 % 10), Nat.digitChar (n % 10)]

def letter? (b : UInt8) : Option Char :=
  match b.toNat with
  | 34 => some '"'
  | 92 => some '\\'
  | 10 => some 'n'
  | 9 => some 't'
  | 13 => some 'r'
  | 8 => some 'b'
  | _ => none

def writtenByte (b : UInt8) : List Char :=
  match letter? b with
  | some c => ['\\', c]
  | none =>
    if 32 ≤ b.toNat ∧ b.toNat ≤ 126 then [Char.ofNat b.toNat] else '\\' :: threeDigits b.toNat

/-- The texts that stand for a row of bytes. A break may come before any byte but a raw space, which
would be taken for part of the break. -/
inductive Written : List UInt8 → List Char → Prop where
  | nil : Written [] []
  | byte {bytes : List UInt8} {cs : List Char} (b : UInt8) (rest : Written bytes cs) :
      Written (b :: bytes) (writtenByte b ++ cs)
  | broken {bytes : List UInt8} {gap cs : List Char} (gaps : ∀ c ∈ gap, isGap c = true)
      (solid : cs.head? ≠ some ' ') (rest : Written bytes cs) :
      Written bytes ('\\' :: '\n' :: gap ++ cs)

structure Surround where
  before : List Char
  after : List Char
  lefts : List SExp
  rights : List SExp
  left : Items before lefts
  right : Items after rights

def Surround.text (s : Surround) (e : List Char) : List Char :=
  '(' :: (s.before ++ (e ++ s.after)) ++ [')']

def Surround.tree (s : Surround) (t : SExp) : SExp := .list (s.lefts ++ t :: s.rights)

theorem digit_value {n : Nat} (small : n < 10) :
    Digits.isDecimal (Nat.digitChar n) = true ∧ Digits.value (Nat.digitChar n) = n := by
  interval_cases n <;> decide

theorem threeDigits_spell {n : Nat} (bound : n < 256) {cs : List Char} {bytes : List UInt8}
    (rest : Spelling cs bytes) :
    Spelling ('\\' :: threeDigits n ++ cs) (UInt8.ofNat n :: bytes) := by
  have hundreds := digit_value (show n / 100 < 10 by omega)
  have tens := digit_value (show n / 10 % 10 < 10 by omega)
  have ones := digit_value (show n % 10 < 10 by omega)
  have digits : ∀ d ∈ threeDigits n, Digits.isDecimal d = true := by
    simp [threeDigits, hundreds.1, tens.1, ones.1]
  have number : n = 100 * Digits.value (Nat.digitChar (n / 100)) +
      10 * Digits.value (Nat.digitChar (n / 10 % 10)) + Digits.value (Nat.digitChar (n % 10)) := by
    rw [hundreds.2, tens.2, ones.2]
    omega
  exact .escape (.decimal digits number (by omega)) rest

theorem ascii_toNat {n : Nat} (bound : n < 128) : (Char.ofNat n).toNat = n := by
  have valid : n.isValidChar := Or.inl (by omega)
  simp [Char.ofNat, valid, Char.toNat, Char.ofNatAux]

theorem ascii_encoded {n : Nat} (bound : n < 128) :
    String.utf8EncodeChar (Char.ofNat n) = [UInt8.ofNat n] := by
  have code : (Char.ofNat n).val.toNat = n := ascii_toNat bound
  have first : n ≤ 0x7f := by omega
  simp [String.utf8EncodeChar, code, first]

theorem letter_escapes {b : UInt8} {c : Char} (named : letter? b = some c) :
    simpleEscape? c = some b := by
  have same : UInt8.ofNat b.toNat = b := UInt8.ofNat_toNat
  unfold letter? at named
  split at named
  case h_7 => contradiction
  all_goals
    rename_i code
    rw [code] at same
    subst same
    obtain rfl := Option.some.inj named
    rfl

theorem letterless {b : UInt8} (unnamed : letter? b = none) : b.toNat ≠ 34 ∧ b.toNat ≠ 92 := by
  constructor
  · intro quote
    simp [letter?, quote] at unnamed
  · intro backslash
    simp [letter?, backslash] at unnamed

theorem writtenByte_spells (b : UInt8) {cs : List Char} {bytes : List UInt8}
    (rest : Spelling cs bytes) : Spelling (writtenByte b ++ cs) (b :: bytes) := by
  have same : UInt8.ofNat b.toNat = b := UInt8.ofNat_toNat
  unfold writtenByte
  split
  · rename_i c named
    exact .escape (simple_escape (letter_escapes named)) rest
  · rename_i unnamed
    obtain ⟨notQuote, notBackslash⟩ := letterless unnamed
    split
    · have bound : b.toNat < 128 := by omega
      have other : ∀ c : Char, b.toNat ≠ c.toNat → Char.ofNat b.toNat ≠ c := by
        intro c different equal
        have codes := congrArg Char.toNat equal
        rw [ascii_toNat bound] at codes
        exact different codes
      have raw := Spelling.raw (other '"' notQuote) (other '\\' notBackslash) rest
      rw [ascii_encoded bound, same] at raw
      exact raw
    · have spelt := threeDigits_spell b.toNat_lt rest
      rw [same] at spelt
      exact spelt

theorem writtenByte_head (b : UInt8) : ∃ c cs, writtenByte b = c :: cs ∧ c ≠ '\t' := by
  unfold writtenByte
  split
  · exact ⟨_, _, rfl, by decide⟩
  split
  · refine ⟨_, _, rfl, ?_⟩
    intro equal
    have codes : (Char.ofNat b.toNat).toNat = 9 := congrArg Char.toNat equal
    rw [ascii_toNat (by omega)] at codes
    omega
  · exact ⟨_, _, rfl, by decide⟩

theorem written_head {bytes : List UInt8} {cs : List Char} (written : Written bytes cs) :
    ∀ c ∈ cs.head?, c ≠ '\t' := by
  cases written with
  | nil => simp
  | byte b rest =>
    obtain ⟨c, ds, eq, notTab⟩ := writtenByte_head b
    simpa [eq] using notTab
  | broken gaps solid rest => simp

theorem written_spells {bytes : List UInt8} {cs : List Char} (written : Written bytes cs) :
    Spelling cs bytes := by
  induction written with
  | nil => exact .nil
  | byte b rest ih => exact writtenByte_spells b ih
  | @broken bytes gap cs gaps solid rest ih =>
    have maximal : ∀ c ∈ cs.head?, isGap c = false := by
      intro c first
      have notTab := written_head rest c first
      have notSpace : c ≠ ' ' := by
        intro equal
        subst equal
        exact solid first
      simp [isGap, notTab, notSpace]
    exact .continuation gaps maximal ih

/-- A text with the tokens of a tree, whatever stands behind it. -/
def SelfContained (e : List Char) (t : SExp) : Prop :=
  ∀ rest us, Lexes rest us → Lexes (e ++ rest) (flat t ++ us)

theorem surround_lexes (s : Surround) {c : Char} {e : List Char} {t : SExp} (mark : ¬WordChar c)
    (inner : SelfContained (c :: e) t) : SelfContained (s.text (c :: e)) (s.tree t) := by
  intro rest us after
  have right := items_lex s.right _ _ (apart_cons.mpr (by decide)) (.closing after)
  have left := items_lex s.left _ _ (apart_cons.mpr mark) (inner _ _ right)
  simpa [Surround.text, Surround.tree, flat, flatItems, flatItems_append] using Lexes.opening left

theorem surrounds_lex (around : List Surround) {c : Char} {e : List Char} {t : SExp}
    (mark : ¬WordChar c) (inner : SelfContained (c :: e) t) :
    ∃ d f, around.foldr Surround.text (c :: e) = d :: f ∧ ¬WordChar d ∧
      SelfContained (d :: f) (around.foldr Surround.tree t) := by
  induction around with
  | nil => exact ⟨c, e, rfl, mark, inner⟩
  | cons s around ih =>
    obtain ⟨d, f, eq, mark, inner⟩ := ih
    refine ⟨'(', _, rfl, by decide, ?_⟩
    simp only [List.foldr_cons, eq]
    exact surround_lexes s mark inner

/-- Every spelling of a string, inside any number of lists, is read as that string. -/
theorem written_string_read_back (s : String) {cs : List Char}
    (written : Written (Utf8.bytesOf s) cs) (around : List Surround) {before after : List Char}
    (leading : Blanks before) (trailing : Blanks after) :
    parse (String.ofList
        (before ++ around.foldr Surround.text ('"' :: cs ++ ['"']) ++ after)) =
      .ok (around.foldr Surround.tree (.atom s)) := by
  have quoted := Expression.quoted (written_spells written)
  rw [Utf8.bytesOf_eq_encode, Utf8.decodeLossy_encode, String.ofList_toList] at quoted
  have notBare : ¬Word ('"' :: cs ++ ['"']) := fun bare => absurd (bare.2 '"' (by simp)) (by decide)
  have inside : SelfContained ('"' :: (cs ++ ['"'])) (.atom s) := by
    intro rest us later
    exact expression_lexes quoted rest us (fun bare => absurd bare notBare) later
  obtain ⟨d, f, eq, _, whole⟩ := surrounds_lex around (by decide) inside
  have last : Lexes after [] := by simpa using lexes_blanks trailing .nil
  have lexes := lexes_blanks leading (whole after [] last)
  rw [parse_iff_denotes, denotes_iff_lexes, String.toList_ofList]
  simpa [← eq] using lexes

theorem broken_literal_read_back :
    let name := String.ofList ['é', '1', ' ', '"']
    let spelt := ['\\', '1', '9', '5', '\\', '\n', '\t', '\\', '1', '6', '9', '1', ' ', '\\', '"']
    Written (Utf8.bytesOf name) spelt ∧
      parse (String.ofList ('(' :: 'b' :: '"' :: spelt ++ ['"', ')'])) =
        .ok (.list [.atom "b", .atom name]) := by
  intro name spelt
  have bytes : Utf8.bytesOf name = [195, 169, 49, 32, 34] := by
    rw [Utf8.bytesOf_eq_encode, String.toList_ofList]
    decide
  have written : Written (Utf8.bytesOf name) spelt := by
    have gaps : ∀ c ∈ ['\t'], isGap c = true := by simp [isGap]
    have tail := Written.byte 169 (.byte 49 (.byte 32 (.byte 34 .nil)))
    rw [bytes]
    exact .byte 195 (.broken gaps (by decide) tail)
  have bare : Word ['b'] := ⟨by simp, by simp; decide⟩
  have left : Items ['b'] [.atom "b"] := .item (.word bare) (fun _ => apart_nil) .nil
  have nothing : Blanks [] := by simp [Blanks]
  have read := written_string_read_back name written [⟨['b'], [], _, _, left, .nil⟩] nothing nothing
  exact ⟨written, by simpa [Surround.text, Surround.tree] using read⟩

end TypedContracts.SExp
