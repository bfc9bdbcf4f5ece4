import Mathlib
import TypedContracts.SExp.Reader

/-!
The grammar of S-expression text, as relations between characters and what they stand for. No
machine and no position occurs here. A bare atom is maximal because what follows it in a row of
items must not start with a character that would lengthen it.
-/
namespace TypedContracts.SExp
open TypedContracts.Text

def Blanks (cs : List Char) : Prop := ∀ c ∈ cs, isBlank c = true

def WordChar (c : Char) : Prop := isBlank c = false ∧ c ≠ '(' ∧ c ≠ ')' ∧ c ≠ '"'

instance (c : Char) : Decidable (WordChar c) := inferInstanceAs (Decidable (_ ∧ _))

def Word (cs : List Char) : Prop := cs ≠ [] ∧ ∀ c ∈ cs, WordChar c

/-- Nothing that would lengthen a bare atom comes first. -/
def Apart (cs : List Char) : Prop := ∀ c ∈ cs.head?, ¬WordChar c

inductive Escape : List Char → UInt8 → Prop where
  | newline : Escape ['n'] 10
  | tab : Escape ['t'] 9
  | carriageReturn : Escape ['r'] 13
  | backspace : Escape ['b'] 8
  | space : Escape [' '] 32
  | backslash : Escape ['\\'] 92
  | doubleQuote : Escape ['"'] 34
  | singleQuote : Escape ['\''] 39
  | decimal {a b c : Char} {n : Nat} (digits : ∀ d ∈ [a, b, c], Digits.isDecimal d = true)
      (number : n = 100 * Digits.value a + 10 * Digits.value b + Digits.value c)
      (bound : n ≤ 255) : Escape [a, b, c] (UInt8.ofNat n)
  | hexadecimal {a b : Char} (digits : ∀ d ∈ [a, b], Digits.isHexadecimal d = true) :
      Escape ['x', a, b] (UInt8.ofNat (16 * Digits.value a + Digits.value b))

/-- The text between the quotes of a string, and the bytes it gives. -/
inductive Spelling : List Char → List UInt8 → Prop where
  | nil : Spelling [] []
  | raw {c : Char} {cs : List Char} {bytes : List UInt8} (quote : c ≠ '"') (backslash : c ≠ '\\')
      (rest : Spelling cs bytes) : Spelling (c :: cs) (String.utf8EncodeChar c ++ bytes)
  | escape {name cs : List Char} {byte : UInt8} {bytes : List UInt8} (names : Escape name byte)
      (rest : Spelling cs bytes) : Spelling ('\\' :: name ++ cs) (byte :: bytes)
  | continuation {gap cs : List Char} {bytes : List UInt8} (gaps : ∀ c ∈ gap, isGap c = true)
      (maximal : ∀ c ∈ cs.head?, isGap c = false) (rest : Spelling cs bytes) :
      Spelling ('\\' :: '\n' :: gap ++ cs) bytes

mutual
inductive Expression : List Char → SExp → Prop where
  | word {cs : List Char} (bare : Word cs) : Expression cs (.atom (String.ofList cs))
  | quoted {body : List Char} {bytes : List UInt8} (inside : Spelling body bytes) :
      Expression ('"' :: body ++ ['"']) (.atom (String.ofList (Utf8.decodeLossy bytes)))
  | list {inner : List Char} {items : List SExp} (inside : Items inner items) :
      Expression ('(' :: inner ++ [')']) (.list items)
inductive Items : List Char → List SExp → Prop where
  | nil : Items [] []
  | blank {c : Char} {cs : List Char} {items : List SExp} (isBlank : isBlank c = true)
      (rest : Items cs items) : Items (c :: cs) items
  | item {e cs : List Char} {tree : SExp} {items : List SExp} (first : Expression e tree)
      (apart : Word e → Apart cs) (rest : Items cs items) : Items (e ++ cs) (tree :: items)
end

def Denotes (cs : List Char) (tree : SExp) : Prop :=
  ∃ before e after, cs = before ++ e ++ after ∧ Blanks before ∧ Blanks after ∧ Expression e tree

theorem delimiter_iff (c : Char) : isDelimiter c = true ↔ ¬WordChar c := by
  simp only [isDelimiter, WordChar, Bool.or_eq_true, beq_iff_eq]
  grind

theorem not_delimiter_iff (c : Char) : isDelimiter c = false ↔ WordChar c := by
  rw [← Bool.not_eq_true, delimiter_iff, Decidable.not_not]

theorem blank_not_word {c : Char} (blank : isBlank c = true) : ¬WordChar c := by
  intro word
  simp [word.1] at blank

theorem apart_nil : Apart [] := by simp [Apart]

theorem apart_cons {c : Char} {cs : List Char} : Apart (c :: cs) ↔ ¬WordChar c := by
  simp [Apart]

theorem apart_append {cs ds : List Char} (first : Apart cs) (second : cs = [] → Apart ds) :
    Apart (cs ++ ds) := by
  cases cs with
  | nil => exact second rfl
  | cons c cs => exact apart_cons.mpr (apart_cons.mp first)

theorem apart_of_append {cs ds : List Char} (both : Apart (cs ++ ds)) : Apart cs := by
  cases cs with
  | nil => exact apart_nil
  | cons c cs => exact apart_cons.mpr (apart_cons.mp both)

theorem apart_blanks {cs : List Char} (blanks : Blanks cs) : Apart cs := by
  intro c member
  exact blank_not_word (blanks c (List.mem_of_mem_head? member))

end TypedContracts.SExp
