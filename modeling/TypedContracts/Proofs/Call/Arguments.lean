import TypedContracts.Call.Arguments
import TypedContracts.Call.Encode
import TypedContracts.Proofs.Result

/-!
Argument lists that a call accepts, told apart from the steps that check them: which arguments are
positional, and what each of them is encoded as.
-/
namespace TypedContracts.Call

/-- Exactly as many arguments as there are parameters, or one more that decodes as overrides. -/
inductive Splits (expected : Nat) : List Json → List Json → Option Overrides → Prop where
  | exact {args : List Json} (count : args.length = expected) : Splits expected args args none
  | overridden {args : List Json} {last : Json} {overrides : Overrides}
      (count : args.length = expected) (decodes : Overrides.ofJson? last = some overrides) :
      Splits expected (args ++ [last]) args (some overrides)

theorem splitArguments_ok_iff {target : String} {expected : Nat} {args positional : List Json}
    {overrides : Option Overrides} :
    splitArguments target expected args = .ok (positional, overrides) ↔
      Splits expected args positional overrides := by
  unfold splitArguments
  constructor
  · intro split
    split at split
    · rename_i count
      cases split
      exact .exact count
    · split at split
      · rename_i more
        rcases List.eq_nil_or_concat args with rfl | ⟨init, last, rfl⟩
        · simp at more
        · cases decoded : Overrides.ofJson? last with
          | none => simp [decoded] at split
          | some found =>
            simp only [List.concat_eq_append, List.getLast?_concat, Option.bind_eq_bind,
              Option.bind_some, decoded, List.dropLast_concat] at split
            cases split
            rw [List.concat_eq_append]
            exact .overridden (by simpa using more) decoded
      · cases split
  · intro splits
    cases splits with
    | exact count => simp [count]
    | overridden count decodes => simp [count, decodes]

inductive Encodings : List Field → List Json → List Param → Prop where
  | nil : Encodings [] [] []
  | cons {slot : Field} {slots : List Field} {arg : Json} {args : List Json} {value : Encoded}
      {values : List Param} (first : encode arg slot = .ok value)
      (rest : Encodings slots args values) :
      Encodings (slot :: slots) (arg :: args) (⟨slot.name, slot.type, value⟩ :: values)

theorem encodings_length {slots : List Field} {args : List Json} {values : List Param}
    (encodings : Encodings slots args values) :
    args.length = slots.length ∧ values.length = slots.length := by
  induction encodings with
  | nil => simp
  | cons first rest ih => simpa using ih

theorem encodeParam_ok_iff {slot : Field} {arg : Json} {value : Param} :
    encodeParam slot arg = .ok value ↔
      ∃ encoded, encode arg slot = .ok encoded ∧ value = ⟨slot.name, slot.type, encoded⟩ := by
  unfold encodeParam
  simp only [Result.bind_ok_iff, Result.pure_ok_iff]

theorem encodeArgs_ok_iff {target : String} {slots : List Field} {args : List Json}
    {values : List Param} :
    encodeArgs target slots args = .ok values ↔ Encodings slots args values := by
  unfold encodeArgs
  constructor
  · intro encoded
    split at encoded
    · rename_i count
      rw [Result.mapM_ok_iff] at encoded
      induction slots generalizing args values with
      | nil =>
        cases args with
        | nil =>
          cases encoded with
          | nil => exact .nil
        | cons arg args => cases count
      | cons slot slots ih =>
        cases args with
        | nil => cases count
        | cons arg args =>
          cases encoded with
          | cons first rest =>
            obtain ⟨value, here, rfl⟩ := encodeParam_ok_iff.mp first
            exact .cons here (ih (Nat.succ.inj count) rest)
    · cases encoded
  · intro encodings
    rw [if_pos (encodings_length encodings).1.symm, Result.mapM_ok_iff]
    induction encodings with
    | nil => exact .nil
    | cons first rest ih => exact .cons (encodeParam_ok_iff.mpr ⟨_, first, rfl⟩) ih

end TypedContracts.Call
