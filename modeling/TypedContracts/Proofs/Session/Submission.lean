import TypedContracts.Proofs.Call.Arguments
import TypedContracts.Session.Deployment

/-!
The six ways to change the chain. A client that keeps a record of the requests it is sent shows that
each way sends one request when everything about it is in order and none otherwise.
-/
namespace TypedContracts
variable {σ : Type}

/-- The same client, with a record of what it is sent. -/
def Client.recording (client : Client σ) : Client (σ × List Request) where
  deploy s request :=
    let (next, answer) := client.deploy s.1 request
    ((next, s.2 ++ [.deploy request]), answer)
  call s request :=
    let (next, answer) := client.call s.1 request
    ((next, s.2 ++ [.call request]), answer)
  state s address := client.state s.1 address
  init s address := client.init s.1 address
  code s address := client.code s.1 address

inductive Submission where
  | invoke (b : Binding) (transition : String) (args : List Json)
  | invokeWith (b : Binding) (transition : String) (args : List Json) (overrides : Overrides)
  | deploy (name : String) (options : DeployOptions) (args : List Json)
  | deployWith (name : String) (options : DeployOptions) (args : List Json)
      (overrides : Option Overrides)
  | deployLibrary (name : String)
  | deployFile (path : String) (init : List Param) (overrides : Option Overrides)

namespace Submission

def perform (client : Client σ) (s : σ) (ctx : Context) (files : Files) : Submission → σ
  | .invoke b transition args => (b.invoke client s ctx transition args).1
  | .invokeWith b transition args overrides =>
    (b.invokeWith client s ctx transition args overrides).1
  | .deploy name options args => (ctx.deploy client s files name options args).1
  | .deployWith name options args overrides =>
    (ctx.deployWith client s files name options args overrides).1
  | .deployLibrary name => (ctx.deployLibrary client s files name).1
  | .deployFile path init overrides => (ctx.deployFile client s files path init overrides).1

def Encodable (slots : List Field) (args : List Json) : Prop :=
  args.length = slots.length ∧ ∀ p ∈ slots.zip args, ∃ value, Call.encode p.2 p.1 = .ok value

def Readable (files : Files) (path : String) : Prop := ∃ code, files.readText path = .ok code

/-- A contract without a parameter list takes no overrides as an argument. -/
def DeploySplits (params : Option (List Field)) (args positional : List Json)
    (overrides : Option Overrides) : Prop :=
  match params with
  | some fields => Call.Splits fields.length args positional overrides
  | none => positional = args ∧ overrides = none

/-- All that is checked before anything is sent. -/
def Valid (ctx : Context) (files : Files) : Submission → Prop
  | .invoke b transition args => ∃ component positional overrides,
      b.contract.component? transition = some component ∧
      Call.Splits component.params.length args positional overrides ∧
      Encodable component.params positional
  | .invokeWith b transition args _ => ∃ component,
      b.contract.component? transition = some component ∧ Encodable component.params args
  | .deploy name _ args => ∃ entry positional overrides, ctx.contract name = .ok entry ∧
      DeploySplits entry.contract.params args positional overrides ∧
      Encodable entry.contract.paramList positional ∧ Readable files entry.path
  | .deployWith name _ args _ => ∃ entry, ctx.contract name = .ok entry ∧
      Encodable entry.contract.paramList args ∧ Readable files entry.path
  | .deployLibrary name => ∃ entry, ctx.contract name = .ok entry ∧ Readable files entry.path
  | .deployFile path _ _ => Readable files path

/-- The request that a submission sends. Behind the version and the libraries, if there are any, the
parameters stand in their order, one value each. -/
inductive Requests (ctx : Context) (files : Files) : Submission → Request → Prop where
  | invoke {b : Binding} {transition : String} {args positional : List Json}
      {component : Component} {overrides : Option Overrides} {values : List Param}
      (found : b.contract.component? transition = some component)
      (splits : Call.Splits component.params.length args positional overrides)
      (encodings : Call.Encodings component.params positional values) :
      Requests ctx files (.invoke b transition args) (.call ⟨b.address, transition, values,
        ctx.params b.executer overrides, ctx.setup.retry⟩)
  | invokeWith {b : Binding} {transition : String} {args : List Json} {component : Component}
      {overrides : Overrides} {values : List Param}
      (found : b.contract.component? transition = some component)
      (encodings : Call.Encodings component.params args values) :
      Requests ctx files (.invokeWith b transition args overrides) (.call ⟨b.address, transition,
        values, ctx.params b.executer (some overrides), ctx.setup.retry⟩)
  | deploy {name : String} {options : DeployOptions} {args positional : List Json} {entry : Entry}
      {overrides : Option Overrides} {values : List Param} {code : String}
      (known : ctx.contract name = .ok entry)
      (splits : DeploySplits entry.contract.params args positional overrides)
      (encodings : Call.Encodings entry.contract.paramList positional values)
      (read : sourceCode files entry.path options.compress = .ok code) :
      Requests ctx files (.deploy name options args) (.deploy ⟨code,
        versionParam :: ((options.libraries.map librariesParam).toList ++ values),
        ctx.params ctx.sender overrides, ctx.setup.retry⟩)
  | deployWith {name : String} {options : DeployOptions} {args : List Json} {entry : Entry}
      {overrides : Option Overrides} {values : List Param} {code : String}
      (known : ctx.contract name = .ok entry)
      (encodings : Call.Encodings entry.contract.paramList args values)
      (read : sourceCode files entry.path options.compress = .ok code) :
      Requests ctx files (.deployWith name options args overrides) (.deploy ⟨code,
        versionParam :: ((options.libraries.map librariesParam).toList ++ values),
        ctx.params ctx.sender overrides, ctx.setup.retry⟩)
  | deployLibrary {name : String} {entry : Entry} {code : String}
      (known : ctx.contract name = .ok entry) (read : files.readText entry.path = .ok code) :
      Requests ctx files (.deployLibrary name) (.deploy ⟨code, libraryInit,
        ctx.params ctx.sender none, ctx.setup.retry⟩)
  | deployFile {path : String} {init : List Param} {overrides : Option Overrides} {code : String}
      (read : files.readText path = .ok code) :
      Requests ctx files (.deployFile path init overrides) (.deploy ⟨code, init,
        ctx.params ctx.sender overrides, ctx.setup.retry⟩)

def prepared (ctx : Context) (files : Files) : Submission → Result Request
  | .invoke b transition args => (b.prepare ctx transition args).map .call
  | .invokeWith b transition args overrides =>
    (b.prepareWith ctx transition args overrides).map .call
  | .deploy name options args => (ctx.prepareDeploy files name options args).map (.deploy ·.2)
  | .deployWith name options args overrides =>
    (ctx.prepareDeployWith files name options args overrides).map (.deploy ·.2)
  | .deployLibrary name => (ctx.prepareLibrary files name).map (.deploy ·.2)
  | .deployFile path init overrides => (ctx.prepareFile files path init overrides).map .deploy

def send (client : Client σ) (s : σ) : Result Request → σ
  | .ok (.deploy request) => (client.deploy s request).1
  | .ok (.call request) => (client.call s request).1
  | .error _ => s

theorem submit_state (client : Client σ) (s : σ) (request : Result CallRequest) :
    (Binding.submit client s request).1 = send client s (request.map .call) := by
  cases request <;> rfl

theorem submitDeploy_state (client : Client σ) (s : σ) (ctx : Context)
    (request : Result (Entry × DeployRequest)) :
    (Context.submitDeploy client s ctx request).1 = send client s (request.map (.deploy ·.2)) := by
  cases request with
  | error fault => rfl
  | ok request =>
    obtain ⟨entry, request⟩ := request
    simp only [Context.submitDeploy, Except.map, send]
    split <;> rename_i answer <;> rw [answer]

theorem perform_eq_send (client : Client σ) (s : σ) (ctx : Context) (files : Files)
    (submission : Submission) :
    submission.perform client s ctx files = send client s (submission.prepared ctx files) := by
  cases submission with
  | invoke b transition args => exact submit_state client s _
  | invokeWith b transition args overrides => exact submit_state client s _
  | deploy name options args => exact submitDeploy_state client s ctx _
  | deployWith name options args overrides => exact submitDeploy_state client s ctx _
  | deployLibrary name => exact submitDeploy_state client s ctx _
  | deployFile path init overrides =>
    simp only [perform, prepared, Context.deployFile]
    cases ctx.prepareFile files path init overrides <;> rfl

theorem send_recorded (client : Client σ) (s : σ) (request : Result Request) :
    (send client.recording (s, []) request).2 = request.toOption.toList := by
  cases request with
  | error fault => rfl
  | ok request => cases request <;> rfl

theorem send_recording (client : Client σ) (s : σ) (sent : List Request)
    (request : Result Request) :
    (send client.recording (s, sent) request).1 = send client s request := by
  cases request with
  | error fault => rfl
  | ok request => cases request <;> rfl

theorem paramsOf_ok_iff {b : Binding} {transition : String} {params : List Field} :
    b.paramsOf transition = .ok params ↔
      ∃ component, b.contract.component? transition = some component ∧
        params = component.params := by
  unfold Binding.paramsOf
  cases b.contract.component? transition with
  | none => simp
  | some component => simp [eq_comm]

theorem callRequest_ok_iff {b : Binding} {ctx : Context} {transition : String}
    {params : List Field} {args : List Json} {overrides : Option Overrides}
    {request : CallRequest} :
    b.callRequest ctx transition params args overrides = .ok request ↔
      ∃ values, Call.Encodings params args values ∧ request = ⟨b.address, transition, values,
        ctx.params b.executer overrides, ctx.setup.retry⟩ := by
  unfold Binding.callRequest
  simp only [Result.bind_ok_iff, Result.pure_ok_iff, Call.encodeArgs_ok_iff]

theorem contractInit_ok_iff {name : String} {libraries : Option (List LinkedLibrary)}
    {params : List Field} {args : List Json} {init : List Param} :
    contractInit name libraries params args = .ok init ↔
      ∃ values, Call.Encodings params args values ∧
        init = versionParam :: ((libraries.map librariesParam).toList ++ values) := by
  unfold contractInit
  simp only [Result.bind_ok_iff, Result.pure_ok_iff, Call.encodeArgs_ok_iff]

theorem sourceCode_plain (files : Files) (path : String) :
    sourceCode files path false = files.readText path := by
  unfold sourceCode
  cases files.readText path <;> rfl

theorem sourceCode_readable {files : Files} {path : String} {compress : Bool} :
    (∃ code, sourceCode files path compress = .ok code) ↔ Readable files path := by
  unfold sourceCode Readable
  cases files.readText path with
  | error fault => simp [bind, Except.bind]
  | ok code => simp [bind, Except.bind, pure, Except.pure]

theorem prepareDeployWith_ok_iff {ctx : Context} {files : Files} {name : String}
    {options : DeployOptions} {args : List Json} {overrides : Option Overrides}
    {request : DeployRequest} :
    (∃ entry, ctx.prepareDeployWith files name options args overrides = .ok (entry, request)) ↔
      ∃ entry values code, ctx.contract name = .ok entry ∧
        Call.Encodings entry.contract.paramList args values ∧
        sourceCode files entry.path options.compress = .ok code ∧
        request = ⟨code, versionParam :: ((options.libraries.map librariesParam).toList ++ values),
          ctx.params ctx.sender overrides, ctx.setup.retry⟩ := by
  unfold Context.prepareDeployWith
  simp only [Result.bind_ok_iff, Result.pure_ok_iff, contractInit_ok_iff, Prod.mk.injEq]
  constructor
  · rintro ⟨entry, _, known, _, ⟨values, encodings, rfl⟩, code, read, rfl, rfl⟩
    exact ⟨entry, values, code, known, encodings, read, rfl⟩
  · rintro ⟨entry, values, code, known, encodings, read, rfl⟩
    exact ⟨entry, entry, known, _, ⟨values, encodings, rfl⟩, code, read, rfl, rfl⟩

theorem deployArguments_ok_iff {name : String} {params : Option (List Field)}
    {args positional : List Json} {overrides : Option Overrides} :
    Context.deployArguments name params args = .ok (positional, overrides) ↔
      DeploySplits params args positional overrides := by
  cases params with
  | none => simp [Context.deployArguments, DeploySplits, eq_comm]
  | some fields => exact Call.splitArguments_ok_iff

theorem prepared_ok_iff {ctx : Context} {files : Files} {submission : Submission}
    {request : Request} :
    submission.prepared ctx files = .ok request ↔ Requests ctx files submission request := by
  cases submission with
  | invoke b transition args =>
    simp only [prepared, Binding.prepare, Result.map_ok_iff, Result.bind_ok_iff, paramsOf_ok_iff,
      Prod.exists, Call.splitArguments_ok_iff, callRequest_ok_iff]
    constructor
    · rintro ⟨_, ⟨_, ⟨component, found, rfl⟩, positional, overrides, splits, values, encodings,
        rfl⟩, rfl⟩
      exact .invoke found splits encodings
    · intro requests
      cases requests with
      | invoke found splits encodings =>
        exact ⟨_, ⟨_, ⟨_, found, rfl⟩, _, _, splits, _, encodings, rfl⟩, rfl⟩
  | invokeWith b transition args overrides =>
    simp only [prepared, Binding.prepareWith, Result.map_ok_iff, Result.bind_ok_iff,
      paramsOf_ok_iff, callRequest_ok_iff]
    constructor
    · rintro ⟨_, ⟨_, ⟨component, found, rfl⟩, values, encodings, rfl⟩, rfl⟩
      exact .invokeWith found encodings
    · intro requests
      cases requests with
      | invokeWith found encodings =>
        exact ⟨_, ⟨_, ⟨_, found, rfl⟩, _, encodings, rfl⟩, rfl⟩
  | deploy name options args =>
    simp only [prepared, Context.prepareDeploy, Result.map_ok_iff, Result.bind_ok_iff, Prod.exists,
      deployArguments_ok_iff]
    constructor
    · rintro ⟨_, _, ⟨known, first, positional, overrides, splits, made⟩, rfl⟩
      obtain ⟨entry, values, code, again, encodings, read, rfl⟩ :=
        prepareDeployWith_ok_iff.mp ⟨_, made⟩
      cases first.symm.trans again
      exact .deploy again splits encodings read
    · intro requests
      cases requests with
      | deploy known splits encodings read =>
        obtain ⟨entry, made⟩ := prepareDeployWith_ok_iff.mpr
          ⟨_, _, _, known, encodings, read, rfl⟩
        exact ⟨entry, _, ⟨_, known, _, _, splits, made⟩, rfl⟩
  | deployWith name options args overrides =>
    simp only [prepared, Result.map_ok_iff, Prod.exists]
    constructor
    · rintro ⟨entry, request, made, rfl⟩
      obtain ⟨entry, values, code, known, encodings, read, rfl⟩ :=
        prepareDeployWith_ok_iff.mp ⟨entry, made⟩
      exact .deployWith known encodings read
    · intro requests
      cases requests with
      | deployWith known encodings read =>
        obtain ⟨entry, made⟩ := prepareDeployWith_ok_iff.mpr
          ⟨_, _, _, known, encodings, read, rfl⟩
        exact ⟨entry, _, made, rfl⟩
  | deployLibrary name =>
    simp only [prepared, Context.prepareLibrary, Result.map_ok_iff, Result.bind_ok_iff,
      Result.pure_ok_iff, sourceCode_plain, Prod.exists, Prod.mk.injEq]
    constructor
    · rintro ⟨_, _, ⟨entry, known, code, read, rfl, rfl⟩, rfl⟩
      exact .deployLibrary known read
    · intro requests
      cases requests with
      | deployLibrary known read => exact ⟨_, _, ⟨_, known, _, read, rfl, rfl⟩, rfl⟩
  | deployFile path init overrides =>
    simp only [prepared, Context.prepareFile, Result.map_ok_iff, Result.bind_ok_iff,
      Result.pure_ok_iff, sourceCode_plain]
    constructor
    · rintro ⟨_, ⟨code, read, rfl⟩, rfl⟩
      exact .deployFile read
    · intro requests
      cases requests with
      | deployFile read => exact ⟨_, ⟨_, read, rfl⟩, rfl⟩

theorem encodable_iff {slots : List Field} {args : List Json} :
    Encodable slots args ↔ ∃ values, Call.Encodings slots args values := by
  constructor
  · rintro ⟨count, each⟩
    induction slots generalizing args with
    | nil =>
      cases args with
      | nil => exact ⟨[], .nil⟩
      | cons arg args => cases count
    | cons slot slots ih =>
      cases args with
      | nil => cases count
      | cons arg args =>
        obtain ⟨value, first⟩ := each (slot, arg) List.mem_cons_self
        obtain ⟨values, rest⟩ := ih (Nat.succ.inj count) fun p member =>
          each p (List.mem_cons_of_mem _ member)
        exact ⟨_, .cons first rest⟩
  · rintro ⟨values, encodings⟩
    refine ⟨(Call.encodings_length encodings).1, ?_⟩
    induction encodings with
    | nil => simp
    | cons first rest ih =>
      intro p member
      rcases List.mem_cons.mp member with rfl | later
      · exact ⟨_, first⟩
      · exact ih p later

theorem valid_iff_requests {ctx : Context} {files : Files} {submission : Submission} :
    submission.Valid ctx files ↔ ∃ request, Requests ctx files submission request := by
  cases submission with
  | invoke b transition args =>
    simp only [Valid, encodable_iff]
    constructor
    · rintro ⟨component, positional, overrides, found, splits, values, encodings⟩
      exact ⟨_, .invoke found splits encodings⟩
    · rintro ⟨_, requests⟩
      cases requests with
      | invoke found splits encodings => exact ⟨_, _, _, found, splits, _, encodings⟩
  | invokeWith b transition args overrides =>
    simp only [Valid, encodable_iff]
    constructor
    · rintro ⟨component, found, values, encodings⟩
      exact ⟨_, .invokeWith found encodings⟩
    · rintro ⟨_, requests⟩
      cases requests with
      | invokeWith found encodings => exact ⟨_, found, _, encodings⟩
  | deploy name options args =>
    simp only [Valid, encodable_iff]
    constructor
    · rintro ⟨entry, positional, overrides, known, splits, ⟨values, encodings⟩, readable⟩
      obtain ⟨code, read⟩ := sourceCode_readable.mpr readable
      exact ⟨_, .deploy known splits encodings read⟩
    · rintro ⟨_, requests⟩
      cases requests with
      | deploy known splits encodings read =>
        exact ⟨_, _, _, known, splits, ⟨_, encodings⟩, sourceCode_readable.mp ⟨_, read⟩⟩
  | deployWith name options args overrides =>
    simp only [Valid, encodable_iff]
    constructor
    · rintro ⟨entry, known, ⟨values, encodings⟩, readable⟩
      obtain ⟨code, read⟩ := sourceCode_readable.mpr readable
      exact ⟨_, .deployWith known encodings read⟩
    · rintro ⟨_, requests⟩
      cases requests with
      | deployWith known encodings read =>
        exact ⟨_, known, ⟨_, encodings⟩, sourceCode_readable.mp ⟨_, read⟩⟩
  | deployLibrary name =>
    constructor
    · rintro ⟨entry, known, code, read⟩
      exact ⟨_, .deployLibrary known read⟩
    · rintro ⟨_, requests⟩
      cases requests with
      | deployLibrary known read => exact ⟨_, known, _, read⟩
  | deployFile path init overrides =>
    constructor
    · rintro ⟨code, read⟩
      exact ⟨_, .deployFile read⟩
    · rintro ⟨_, requests⟩
      cases requests with
      | deployFile read => exact ⟨_, read⟩

/-- Nothing is ever sent in part: either something is not in order and nothing is sent, or all is in
order and one request is sent, in full. -/
theorem no_partial_submission (client : Client σ) (s : σ) (ctx : Context) (files : Files)
    (submission : Submission) :
    let after := submission.perform client.recording (s, []) ctx files
    after.1 = submission.perform client s ctx files ∧
      (after.2 = [] ∧ ¬submission.Valid ctx files ∨
        ∃ request, after.2 = [request] ∧ submission.Valid ctx files ∧
          Requests ctx files submission request) := by
  intro after
  have sent : after = send client.recording (s, []) (submission.prepared ctx files) :=
    perform_eq_send client.recording (s, []) ctx files submission
  constructor
  · rw [sent, send_recording, perform_eq_send]
  · rw [sent, send_recorded, valid_iff_requests]
    cases made : submission.prepared ctx files with
    | error fault =>
      refine .inl ⟨rfl, ?_⟩
      rintro ⟨request, requests⟩
      cases made.symm.trans (prepared_ok_iff.mpr requests)
    | ok request =>
      have requests := prepared_ok_iff.mp made
      exact .inr ⟨request, rfl, ⟨request, requests⟩, requests⟩

end Submission
end TypedContracts
