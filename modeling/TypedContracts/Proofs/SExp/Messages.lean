import TypedContracts.Proofs.Parts
import TypedContracts.Proofs.Text.Position
import TypedContracts.SExp.Lexeme

/-!
A message tells its fault. Behind its last blank stands the position, and what comes up to that
blank tells what is wrong: its beginning the kind of fault, and the rest what is cited of the text.
-/
namespace TypedContracts.SExp
open TypedContracts.Text

namespace Fault

def pos? : Fault → Option Position
  | .empty => none
  | .unexpectedEnd p => some p
  | .unexpectedClose p => some p
  | .unterminatedList p => some p
  | .unterminatedString p => some p
  | .unterminatedEscape p => some p
  | .invalidEscape _ p => some p
  | .incompleteNumber p => some p
  | .escapeOutOfRange _ p => some p
  | .invalidHexadecimal _ p => some p
  | .trailing p => some p

def complaint : Fault → String
  | .empty => "Empty S-expression input"
  | .unexpectedEnd _ => "Unexpected end of input at "
  | .unexpectedClose _ => "Unexpected ')' at "
  | .unterminatedList _ => "Unterminated list starting at "
  | .unterminatedString _ => "Unterminated string starting at "
  | .unterminatedEscape _ => "Unterminated escape sequence at "
  | .invalidEscape c _ => "Invalid escape sequence '\\" ++ String.singleton c ++ "' at "
  | .incompleteNumber _ => "Incomplete numeric escape at "
  | .escapeOutOfRange digits _ => "Escape '\\" ++ digits ++ "' out of range at "
  | .invalidHexadecimal digits _ => "Invalid escape '\\x" ++ digits ++ "' at "
  | .trailing _ => "Trailing input after top-level expression at "

theorem message_eq {f : Fault} {p : Position} (placed : f.pos? = some p) :
    f.message = f.complaint ++ p.text := by
  cases f <;> cases placed <;> rfl

theorem complaint_last {f : Fault} {p : Position} (placed : f.pos? = some p) :
    f.complaint.toList.getLast? = some ' ' := by
  unfold complaint
  cases f <;> simp_all [pos?, List.getLast?_cons]

def beginnings : List String :=
  ["Empty", "Unexpected e", "Unexpected '", "Unterminated l", "Unterminated s", "Unterminated e",
    "Invalid escape s", "Incomplete", "Escape", "Invalid escape '", "Trailing"]

def kindOf (message : List Char) : Nat :=
  beginnings.findIdx fun start => start.toList.isPrefixOf message

theorem kind_complaint (f : Fault) (rest : List Char) :
    kindOf (f.complaint.toList ++ rest) = f.ctorIdx := by
  unfold complaint
  cases f <;> simp [kindOf, beginnings, List.findIdx_cons] <;> rfl

theorem message_starts (f : Fault) : ∃ rest, f.message = f.complaint ++ rest := by
  cases place : f.pos? with
  | some p => exact ⟨p.text, message_eq place⟩
  | none =>
    have fixed : f = .empty := by cases f <;> cases place; rfl
    exact ⟨"", by rw [fixed]; exact String.append_empty.symm⟩

theorem kind_message (f : Fault) : kindOf f.message.toList = f.ctorIdx := by
  obtain ⟨rest, starts⟩ := f.message_starts
  rw [starts, String.toList_append, kind_complaint]

theorem kind_begins {f : Fault} {start rest : String} (same : f.message = start ++ rest) :
    f.ctorIdx = kindOf (start.toList ++ rest.toList) := by
  rw [← kind_message, same, String.toList_append]

theorem message_end {f : Fault} {rest : String}
    (same : f.message = "Unexpected end of input at " ++ rest) : ∃ p, f = .unexpectedEnd p := by
  have kind := (kind_begins same).trans (kind_complaint (.unexpectedEnd .origin) _)
  cases f
  all_goals try exact absurd kind (Nat.ne_of_beq_eq_false rfl)
  exact ⟨_, rfl⟩

theorem message_hexadecimal {f : Fault} {rest : String}
    (same : f.message = "Invalid escape '\\x" ++ rest) :
    ∃ digits p, f = .invalidHexadecimal digits p := by
  have begins : kindOf ("Invalid escape '\\x".toList ++ rest.toList) = 9 := by
    simp [kindOf, beginnings, List.findIdx_cons]
    rfl
  have kind := (kind_begins same).trans begins
  cases f
  all_goals try exact absurd kind (Nat.ne_of_beq_eq_false rfl)
  exact ⟨_, _, rfl⟩

theorem middle_injective {start xs ys stop : String}
    (same : start ++ xs ++ stop = start ++ ys ++ stop) : xs = ys := by
  have chars := congrArg String.toList same
  simpa only [String.toList_append, List.append_left_inj, List.append_right_inj,
    String.toList_inj] using chars

theorem complaint_injective {f g : Fault} {p : Position} (first : f.pos? = some p)
    (second : g.pos? = some p) (same : f.complaint = g.complaint) : f = g := by
  have kinds : f.ctorIdx = g.ctorIdx := by rw [← kind_complaint f [], ← kind_complaint g [], same]
  cases f <;> cases g
  all_goals try exact absurd kinds (Nat.ne_of_beq_eq_false rfl)
  all_goals cases first <;> cases second
  case invalidEscape.invalidEscape c d =>
    rw [String.singleton_inj.mp (middle_injective same)]
  case escapeOutOfRange.escapeOutOfRange xs ys => rw [middle_injective same]
  case invalidHexadecimal.invalidHexadecimal xs ys => rw [middle_injective same]
  all_goals rfl

end Fault

theorem last_blank_unique {xs ys ts us : List Char} (first : xs.getLast? = some ' ')
    (second : ys.getLast? = some ' ') (left : ' ' ∉ ts) (right : ' ' ∉ us)
    (same : xs ++ ts = ys ++ us) : xs = ys ∧ ts = us := by
  have turned : ts.reverse ++ xs.reverse = us.reverse ++ ys.reverse := by
    rw [← List.reverse_append, ← List.reverse_append, same]
  obtain ⟨tails, fronts⟩ := Parts.parted_unique (p := (· ≠ ' '))
    (fun c member => ne_of_mem_of_not_mem (List.mem_reverse.mp member) left)
    (fun c member => ne_of_mem_of_not_mem (List.mem_reverse.mp member) right)
    (by simp [first]) (by simp [second]) turned
  exact ⟨List.reverse_inj.mp fronts, List.reverse_inj.mp tails⟩

/-- A message with a position is the message of one fault only. -/
theorem message_unique {f g : Fault} {p : Position} (placed : f.pos? = some p)
    (same : g.message = f.message) : g = f := by
  have chars := congrArg String.toList same
  rw [Fault.message_eq placed, String.toList_append] at chars
  cases other : g.pos? with
  | none =>
    have empty : g = .empty := by cases g <;> simp_all [Fault.pos?]
    have colon : ':' ∈ g.message.toList := by
      rw [chars, Position.text_chars]
      simp
    rw [empty] at colon
    exact absurd colon (by decide)
  | some q =>
    rw [Fault.message_eq other, String.toList_append] at chars
    obtain ⟨complaint, text⟩ := last_blank_unique (Fault.complaint_last other)
      (Fault.complaint_last placed) q.text_no_space p.text_no_space chars
    obtain rfl := Position.text_injective (String.toList_inj.mp text)
    exact Fault.complaint_injective other placed (String.toList_inj.mp complaint)

end TypedContracts.SExp
