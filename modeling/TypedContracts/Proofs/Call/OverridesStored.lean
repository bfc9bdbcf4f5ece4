import TypedContracts.Proofs.Call.Overrides
import TypedContracts.Proofs.Json.Members
import TypedContracts.Proofs.Number.Digits

/-!
Overrides read back from their written form. Amounts are written as decimal text and read back up to
128 bits, members that set nothing are left out, and the order of the members does not count.
-/
namespace TypedContracts
open Json

theorem natural_of_lt {bound n : Nat} (fits : n < bound) : Word.natural? bound n = some n := by
  simp [Word.natural?, fits]

theorem amount_read {n : Nat} (fits : n < Word.count128) : amount? (decimalText n) = some n := by
  simp [amount?, decimalText, readAmountText?, withoutPlus_digits (decimal_digits n), decimal_read,
    natural_of_lt fits]

namespace Overrides

structure Fits (o : Overrides) : Prop where
  amount : ∀ n ∈ o.amount, n < Word.count128
  gasPrice : ∀ n ∈ o.gasPrice, n < Word.count128
  gasLimit : ∀ n ∈ o.gasLimit, n < Word.count64
  nonce : ∀ n ∈ o.nonce, n < Word.count64
  version : ∀ n ∈ o.version, n < Word.count32

inductive Written (o : Overrides) : Json → Prop where
  | mk {members others : List (String × Json)} (form : o.toJson = .object members)
      (order : others.Perm members) : Written o (.object others)

theorem toJson_written (o : Overrides) : o.Written o.toJson := .mk rfl (.refl _)

end Overrides

namespace Call

def presentMembers (members : List (String × Option Json)) : List (String × Json) :=
  members.filterMap fun m => m.2.map fun value => (m.1, value)

theorem present_keys (members : List (String × Option Json)) :
    ((presentMembers members).map (·.1)).Sublist (members.map (·.1)) := by
  unfold presentMembers
  induction members with
  | nil => exact .slnil
  | cons m members ih =>
    obtain ⟨key, _ | value⟩ := m
    · exact ih.cons key
    · exact ih.cons_cons key

theorem present_lookup {members : List (String × Option Json)}
    (once : (members.map (·.1)).Nodup) (key : String) :
    (presentMembers members).lookup key = (members.lookup key).join := by
  have presentOnce := once.sublist (present_keys members)
  refine Option.ext fun value => ?_
  rw [lookup_once presentOnce, Option.join_eq_some_iff, lookup_once once]
  simp [presentMembers]

theorem member_written {α : Type} {read : Json → Option α} {write : α → Json} {given : Option α}
    (each : ∀ a ∈ given, write a ≠ .null ∧ read (write a) = some a) :
    MemberReads read (given.map write) given := by
  cases given with
  | none => exact .missing
  | some a =>
    obtain ⟨present, reads⟩ := each a rfl
    exact .value present reads

theorem amount_written {given : Option Nat} (fits : ∀ n ∈ given, n < Word.count128) :
    MemberReads amount? (given.map decimalText) given :=
  member_written fun n here => ⟨by simp [decimalText], amount_read (fits n here)⟩

theorem integer_written {bound : Nat} {given : Option Nat} (fits : ∀ n ∈ given, n < bound) :
    MemberReads (below? bound) (given.map fun n : Nat => Json.integer n) given :=
  member_written fun n here => ⟨by simp, natural_of_lt (fits n here)⟩

theorem text_written (given : Option String) : MemberReads asText? (given.map .text) given :=
  member_written fun s _ => ⟨by simp, rfl⟩

def writtenMembers (o : Overrides) : List (String × Option Json) :=
  let integer (n : Nat) : Json := .integer n
  [("amount", o.amount.map decimalText), ("gasPrice", o.gasPrice.map decimalText),
    ("gasLimit", o.gasLimit.map integer), ("nonce", o.nonce.map integer),
    ("pubKey", o.sender.map .text), ("version", o.version.map integer)]

theorem toJson_eq (o : Overrides) : o.toJson = .object (presentMembers (writtenMembers o)) := by
  obtain ⟨amount, gasPrice, gasLimit, nonce, sender, version⟩ := o
  cases gasLimit <;> cases nonce <;> cases version <;> rfl

theorem written_read {o : Overrides} (fits : o.Fits) {j : Json} (written : o.Written j) :
    Overrides.ofJson? j = some o := by
  obtain @⟨_, others, form, order⟩ := written
  rw [toJson_eq] at form
  cases form
  have keys : (writtenMembers o).map (·.1) = Overrides.keys := rfl
  have once : ((writtenMembers o).map (·.1)).Nodup := by
    rw [keys]
    decide
  have presentOnce := once.sublist (present_keys (writtenMembers o))
  have found : ∀ key, others.lookup key = ((writtenMembers o).lookup key).join := fun key =>
    (lookup_perm presentOnce order key).trans (present_lookup once key)
  rw [overrides_of_object]
  refine .intro ?_ ((order.map _).nodup_iff.mpr presentOnce) ?_
  · intro m member
    rw [← keys]
    exact (present_keys _).subset (List.mem_map.mpr ⟨m, order.mem_iff.mp member, rfl⟩)
  · simp only [found]
    exact ⟨amount_written fits.amount, amount_written fits.gasPrice, integer_written fits.gasLimit,
      integer_written fits.nonce, text_written o.sender, integer_written fits.version⟩

end Call
end TypedContracts
