import TypedContracts.Chain.Scripted
import TypedContracts.Proofs.Session.Submission
import TypedContracts.Proofs.Wrapper.Plan

/-!
Which components of a contract a binding calls. It takes the first component of a name and never
looks at the kind, while a wrapper has methods for transitions alone. The two agree on every name but
those that only procedures have.
-/
namespace TypedContracts
variable {σ : Type}

/-- A map cannot be sent, nor anything for a slot of unknown structure. -/
def Field.Passable (slot : Field) : Prop :=
  match slot.shape with
  | .primitive _ => True
  | .adt _ _ => True
  | .unknown => False
  | .map _ _ => False

namespace Call

/-- An application that is already encoded, which a slot of any user-defined type takes. -/
def someApplication : Json :=
  .object [("constructor", .text ""), ("argtypes", .array []), ("arguments", .array [])]

theorem passable_iff (slot : Field) :
    slot.Passable ↔ ∃ arg value, encode arg slot = .ok value := by
  obtain ⟨name, type, shape⟩ := slot
  cases shape with
  | unknown =>
    refine iff_of_false id ?_
    rintro ⟨arg, value, encoded⟩
    cases arg <;> simp [encode, encodeFlat] at encoded
  | map key value =>
    refine iff_of_false id ?_
    rintro ⟨arg, value, encoded⟩
    cases arg <;> simp [encode, encodeFlat] at encoded
  | primitive base =>
    exact iff_of_true trivial ⟨.text "", .scalar "", by simp [encode, encodeFlat, scalarText?]⟩
  | adt constructor types =>
    have read : Encoded.applicationOfJson? someApplication = some (.application "" [] []) := by
      decide
    refine iff_of_true trivial ⟨someApplication, .application "" [] [], ?_⟩
    rw [someApplication] at read ⊢
    simp [encode, read, Result.ofOption]

theorem passable_arguments {slots : List Field} (passable : ∀ slot ∈ slots, slot.Passable) :
    ∃ args values, Encodings slots args values := by
  induction slots with
  | nil => exact ⟨[], [], .nil⟩
  | cons slot slots ih =>
    obtain ⟨here, later⟩ := List.forall_mem_cons.mp passable
    obtain ⟨arg, value, first⟩ := (passable_iff slot).mp here
    obtain ⟨args, values, rest⟩ := ih later
    exact ⟨arg :: args, _, .cons first rest⟩

theorem encodings_passable {slots : List Field} {args : List Json} {values : List Param}
    (encodings : Encodings slots args values) : ∀ slot ∈ slots, slot.Passable := by
  induction encodings with
  | nil => exact List.forall_mem_nil _
  | cons first rest ih =>
    exact List.forall_mem_cons.mpr ⟨(passable_iff _).mpr ⟨_, _, first⟩, ih⟩

end Call

namespace Binding

def call (b : Binding) (client : Client σ) (s : σ) (ctx : Context) (name : String)
    (args : List Json) : Option Overrides → σ × Result Transaction
  | none => b.invoke client s ctx name args
  | some overrides => b.invokeWith client s ctx name args overrides

/-- A name without calls: each ends as unknown and none sends anything. -/
def Refuses (b : Binding) (client : Client σ) (s : σ) (ctx : Context) (name : String) : Prop :=
  ∀ args overrides, b.call client.recording (s, []) ctx name args overrides =
    ((s, []), .error (.unknownTransition b.contract.name name))

def Sends (b : Binding) (client : Client σ) (s : σ) (ctx : Context) (name : String) : Prop :=
  ∃ args overrides request,
    (b.call client.recording (s, []) ctx name args overrides).1.2 = [request]

def rekinded (b : Binding) (kindOf : Component → String) : Binding :=
  { b with entry := { b.entry with contract := { b.contract with
      components := b.contract.components.map fun t => { t with kind := kindOf t } } } }

def prepared (b : Binding) (ctx : Context) (name : String) (args : List Json) :
    Option Overrides → Result CallRequest
  | none => b.prepare ctx name args
  | some overrides => b.prepareWith ctx name args overrides

theorem call_eq_submit (b : Binding) (client : Client σ) (s : σ) (ctx : Context) (name : String)
    (args : List Json) (overrides : Option Overrides) :
    b.call client s ctx name args overrides =
      submit client s (b.prepared ctx name args overrides) := by
  cases overrides <;> rfl

theorem call_recorded (b : Binding) (client : Client σ) (s : σ) (ctx : Context) (name : String)
    (args : List Json) (overrides : Option Overrides) :
    (b.call client.recording (s, []) ctx name args overrides).1.2 =
      ((b.prepared ctx name args overrides).map .call).toOption.toList := by
  rw [call_eq_submit, Submission.submit_state, Submission.send_recorded]

theorem prepared_unknown {b : Binding} {name : String}
    (unknown : b.contract.component? name = none) (ctx : Context) (args : List Json)
    (overrides : Option Overrides) : b.prepared ctx name args overrides =
      .error (.unknownTransition b.contract.name name) := by
  have params : b.paramsOf name = .error (.unknownTransition b.contract.name name) := by
    rw [paramsOf, unknown]
  cases overrides with
  | none =>
    rw [prepared, prepare, params]
    rfl
  | some overrides =>
    rw [prepared, prepareWith, params]
    rfl

theorem prepared_found {b : Binding} {ctx : Context} {name : String} {args : List Json}
    {overrides : Option Overrides} {request : CallRequest}
    (made : b.prepared ctx name args overrides = .ok request) :
    ∃ t positional values, b.contract.component? name = some t ∧
      Call.Encodings t.params positional values := by
  cases overrides with
  | none =>
    obtain ⟨params, known, made⟩ := Result.bind_ok_iff.mp made
    obtain ⟨⟨positional, given⟩, split, made⟩ := Result.bind_ok_iff.mp made
    obtain ⟨t, found, rfl⟩ := Submission.paramsOf_ok_iff.mp known
    obtain ⟨values, encodings, _⟩ := Submission.callRequest_ok_iff.mp made
    exact ⟨t, positional, values, found, encodings⟩
  | some overrides =>
    obtain ⟨params, known, made⟩ := Result.bind_ok_iff.mp made
    obtain ⟨t, found, rfl⟩ := Submission.paramsOf_ok_iff.mp known
    obtain ⟨values, encodings, _⟩ := Submission.callRequest_ok_iff.mp made
    exact ⟨t, args, values, found, encodings⟩

theorem prepared_shape {b : Binding} {name : String} {t : Component}
    (found : b.contract.component? name = some t) (ctx : Context) :
    b.prepared ctx name (List.replicate (t.params.length + 2) .null) none =
      .error (.callShape name t.params.length (t.params.length + 2)) := by
  have params : b.paramsOf name = .ok t.params := by
    rw [paramsOf, found]
  have split : Call.splitArguments name t.params.length
      (List.replicate (t.params.length + 2) .null) =
        .error (.callShape name t.params.length (t.params.length + 2)) := by
    simp [Call.splitArguments]
  rw [prepared, prepare, params]
  change (Call.splitArguments name t.params.length _ >>= _) = _
  rw [split]
  rfl

section Names
variable (client : Client σ) (s : σ) (ctx : Context) (b : Binding) (name : String)

theorem refuses_iff : b.Refuses client s ctx name ↔ b.contract.component? name = none := by
  constructor
  · intro refused
    cases found : b.contract.component? name with
    | none => rfl
    | some t =>
      have answer := refused (List.replicate (t.params.length + 2) .null) none
      rw [call_eq_submit, prepared_shape found] at answer
      cases answer
  · intro unknown args overrides
    rw [call_eq_submit, prepared_unknown unknown]
    rfl

theorem sends_iff : b.Sends client s ctx name ↔
    ∃ t, b.contract.component? name = some t ∧ ∀ p ∈ t.params, p.Passable := by
  constructor
  · rintro ⟨args, overrides, request, sent⟩
    rw [call_recorded] at sent
    cases made : b.prepared ctx name args overrides with
    | error fault =>
      rw [made] at sent
      cases sent
    | ok request =>
      obtain ⟨t, positional, values, found, encodings⟩ := prepared_found made
      exact ⟨t, found, Call.encodings_passable encodings⟩
  · rintro ⟨t, found, passable⟩
    obtain ⟨args, values, encodings⟩ := Call.passable_arguments passable
    have made : b.prepared ctx name args (some .none) =
        .ok ⟨b.address, name, values, ctx.params b.executer (some .none), ctx.setup.retry⟩ := by
      refine Result.bind_ok_iff.mpr ⟨t.params, Submission.paramsOf_ok_iff.mpr ⟨t, found, rfl⟩, ?_⟩
      exact Submission.callRequest_ok_iff.mpr ⟨values, encodings, rfl⟩
    exact ⟨args, some .none, _, by rw [call_recorded, made]; rfl⟩

theorem rekinded_paramsOf (kindOf : Component → String) :
    (b.rekinded kindOf).paramsOf name = b.paramsOf name := by
  have found : (b.rekinded kindOf).contract.component? name =
      (b.contract.component? name).map fun t => { t with kind := kindOf t } :=
    List.find?_map ..
  unfold paramsOf
  rw [found]
  cases b.contract.component? name <;> rfl

theorem rekinded_call (kindOf : Component → String) (args : List Json)
    (overrides : Option Overrides) :
    (b.rekinded kindOf).call client s ctx name args overrides =
      b.call client s ctx name args overrides := by
  have params := rekinded_paramsOf b name kindOf
  cases overrides with
  | none => simp only [call, invoke, prepare, params]; rfl
  | some overrides => simp only [call, invokeWith, prepareWith, params]; rfl

/-- A name that procedures have and no transition has. -/
def ProcedureOnly (c : Contract) (name : String) : Prop :=
  (∃ t ∈ c.components, t.name = name) ∧ ∀ t ∈ c.components, t.name = name → t.isProcedure = true

theorem component?_none_iff (c : Contract) :
    c.component? name = none ↔ ∀ t ∈ c.components, t.name ≠ name := by
  simp [Contract.component?]

theorem considered_iff (c : Contract) : name ∈ (Wrapper.plan c).considered ↔
    ∃ t ∈ c.components, t.name = name ∧ t.isProcedure = false := by
  rw [Wrapper.plan_considered]
  simp only [List.mem_map, List.mem_filter, Bool.not_eq_true']
  exact exists_congr fun t => by tauto

theorem procedureOnly_iff (c : Contract) : ProcedureOnly c name ↔
    (∃ t ∈ c.components, t.name = name) ∧ name ∉ (Wrapper.plan c).considered := by
  rw [ProcedureOnly, considered_iff]
  refine and_congr_right fun _ => ⟨?_, ?_⟩
  · rintro procedures ⟨t, declared, named, transition⟩
    rw [procedures t declared named] at transition
    cases transition
  · intro none t declared named
    by_contra transition
    exact none ⟨t, declared, named, Bool.eq_false_iff.mpr transition⟩

/-- A binding refuses a name, and sends nothing for it, exactly if no component has it; the kind of
the component that it takes makes no difference. A wrapper considers the transitions. So both draw
one line at a name exactly if it is not one that only procedures have, and for such a name a call is
sent whenever there are values for its parameters. -/
theorem callable_names :
    (b.Refuses client s ctx name ↔ ∀ t ∈ b.contract.components, t.name ≠ name) ∧
      (b.Sends client s ctx name ↔
        ∃ t, b.contract.component? name = some t ∧ ∀ p ∈ t.params, p.Passable) ∧
      (∀ kindOf args overrides, (b.rekinded kindOf).call client s ctx name args overrides =
        b.call client s ctx name args overrides) ∧
      ((b.Refuses client s ctx name ↔ name ∉ (Wrapper.plan b.contract).considered) ↔
        ¬ProcedureOnly b.contract name) ∧
      (b.Sends client s ctx name ∧ name ∉ (Wrapper.plan b.contract).considered ↔
        ProcedureOnly b.contract name ∧
          ∃ t, b.contract.component? name = some t ∧ ∀ p ∈ t.params, p.Passable) := by
  have refuses := refuses_iff client s ctx b name
  rw [component?_none_iff] at refuses
  have sends := sends_iff client s ctx b name
  refine ⟨refuses, sends, ?_, ?_, ?_⟩
  · intro kindOf args overrides
    exact rekinded_call client s ctx b name kindOf args overrides
  · rw [refuses, procedureOnly_iff, considered_iff]
    constructor
    · rintro same ⟨⟨t, declared, named⟩, left⟩
      exact same.mpr left t declared named
    · intro known
      constructor
      · rintro unknown ⟨t, declared, named, _⟩
        exact unknown t declared named
      · intro left t declared named
        exact known ⟨⟨t, declared, named⟩, left⟩
  · rw [sends, procedureOnly_iff]
    constructor
    · rintro ⟨⟨t, found, passable⟩, left⟩
      have named : t.name = name := by
        simpa using List.find?_some found
      exact ⟨⟨⟨t, List.mem_of_find?_eq_some found, named⟩, left⟩, t, found, passable⟩
    · rintro ⟨⟨_, left⟩, sendable⟩
      exact ⟨sendable, left⟩

end Names

def vault : Binding :=
  bind ⟨"", "Vault.scilla", ⟨"Vault", some [], [], [⟨"CompProc", "CheckOwner", []⟩], []⟩⟩ "0x1"

theorem vault_procedure_called :
    let ctx := Context.new (Setup.ofChain 111) []
    ProcedureOnly vault.contract "CheckOwner" ∧
      "CheckOwner" ∉ (Wrapper.plan vault.contract).considered ∧
      (vault.invoke ScriptedChain.client ScriptedChain.empty ctx "CheckOwner" []).1.sent =
        [.call ⟨"0x1", "CheckOwner", [], ctx.params none none, ctx.setup.retry⟩] ∧
      (vault.invoke ScriptedChain.client ScriptedChain.empty ctx "CheckOwner" []).2 =
        .ok ⟨"call-1", none⟩ := by
  refine ⟨⟨by decide, by decide⟩, by decide, by decide,
    by decide⟩

end Binding
end TypedContracts
