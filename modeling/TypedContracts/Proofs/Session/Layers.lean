import TypedContracts.Chain.Scripted
import TypedContracts.Proofs.Session.Submission

/-!
A whole session: one context, any number of bindings and whatever is done with them in turn. The
parameters of a request come in layers, from the overrides of the request itself, from whoever was
connected last and from the settings as they were updated. Each layer can be told from what was done
so far, and nothing else has a part in it.
-/
namespace TypedContracts
variable {σ : Type}

structure Session (σ : Type) where
  chain : σ
  ctx : Context
  bindings : List Binding

namespace Session

inductive Act where
  | updateSetup (update : SetupUpdate)
  | setSender (sender : String)
  | deploy (name : String) (options : DeployOptions) (args : List Json)
  | deployWith (name : String) (options : DeployOptions) (args : List Json)
      (overrides : Option Overrides)
  | deployLibrary (name : String)
  | deployFile (path : String) (init : List Param) (overrides : Option Overrides)
  | fromAddress (address : String) (dump : String → Result String)
  | bind (entry : Entry) (address : String)
  | connect (place : Nat) (sender : String)
  | invoke (place : Nat) (transition : String) (args : List Json)
  | invokeWith (place : Nat) (transition : String) (args : List Json) (overrides : Overrides)

namespace Act

def submission? (bindings : List Binding) : Act → Option Submission
  | .deploy name options args => some (.deploy name options args)
  | .deployWith name options args overrides => some (.deployWith name options args overrides)
  | .deployLibrary name => some (.deployLibrary name)
  | .deployFile path init overrides => some (.deployFile path init overrides)
  | .invoke place transition args =>
    bindings[place]?.map fun b => .invoke b transition args
  | .invokeWith place transition args overrides =>
    bindings[place]?.map fun b => .invokeWith b transition args overrides
  | .updateSetup _ | .setSender _ | .fromAddress _ _ | .bind _ _ | .connect _ _ => none

def context (ctx : Context) : Act → Context
  | .updateSetup update => ctx.updateSetup update
  | .setSender sender => ctx.withSender sender
  | _ => ctx

def connected (bindings : List Binding) : Act → List Binding
  | .connect place sender => bindings.modify place (·.connect sender)
  | _ => bindings

def binding? (client : Client σ) (files : Files) (s : Session σ) : Act → Option Binding
  | .deploy name options args =>
    (s.ctx.deploy client s.chain files name options args).2.toOption
  | .deployWith name options args overrides =>
    (s.ctx.deployWith client s.chain files name options args overrides).2.toOption
  | .deployLibrary name => (s.ctx.deployLibrary client s.chain files name).2.toOption
  | .fromAddress address dump => (s.ctx.fromAddress client s.chain dump address).toOption.join
  | .bind entry address => some (.bind entry address)
  | .updateSetup _ | .setSender _ | .deployFile _ _ _ | .connect _ _ | .invoke _ _ _
  | .invokeWith _ _ _ _ => none

def update? : Act → Option SetupUpdate
  | .updateSetup update => some update
  | _ => none

def sender? : Act → Option String
  | .setSender sender => some sender
  | _ => none

def connected? (place : Nat) : Act → Option String
  | .connect other sender => if other = place then some sender else none
  | _ => none

/-- A binding that was neither deployed nor looked up has no sender to begin with. -/
def inherits : Act → Bool
  | .bind _ _ => false
  | _ => true

end Act

def step (client : Client σ) (files : Files) (s : Session σ) (act : Act) : Session σ where
  chain := match act.submission? s.bindings with
    | some submission => submission.perform client s.chain s.ctx files
    | none => s.chain
  ctx := act.context s.ctx
  bindings := act.connected s.bindings ++ (act.binding? client files s).toList

def sent (client : Client σ) (files : Files) (s : Session σ) (act : Act) : List Request :=
  match act.submission? s.bindings with
  | some submission => (submission.perform client.recording (s.chain, []) s.ctx files).2
  | none => []

structure Deed where
  act : Act
  made : Bool

/-- What was done since a context was made from settings, and where that has led. Files may change
between two acts in any way, and so may the chain. -/
inductive Run (client : Client σ) (settings : Settings) (contracts : Entries) :
    List Deed → Session σ → Prop where
  | start (chain : σ) :
      Run client settings contracts [] ⟨chain, .new (.ofSettings settings) contracts, []⟩
  | moved {past : List Deed} {s : Session σ} (before : Run client settings contracts past s)
      (chain : σ) : Run client settings contracts past { s with chain }
  | next {past : List Deed} {s : Session σ} (before : Run client settings contracts past s)
      (files : Files) (act : Act) :
      Run client settings contracts (past ++ [⟨act, (act.binding? client files s).isSome⟩])
        (s.step client files act)

def lastGiven {α : Type} (give : Act → Option α) (past : List Deed) : Option α :=
  (past.filterMap fun deed => give deed.act).getLast?

/-- What the last update that set a member set it to, else what the settings say. -/
def settled (member : SetupUpdate → Option Nat) (default : Nat) (past : List Deed) : Nat :=
  (lastGiven (fun act => act.update?.bind member) past).getD default

/-- The sender that a binding has of its own: who was connected to it last or, if nobody was, who
sent deployments when it was made. -/
def BoundTo (past : List Deed) (place : Nat) (sender : Option String) : Prop :=
  ∃ before deed after, past = before ++ deed :: after ∧ deed.made = true ∧
    before.countP (·.made) = place ∧
    sender = (lastGiven (Act.connected? place) after).or
      (if deed.act.inherits then lastGiven Act.sender? before else none)

def SentFrom (past : List Deed) (sender : Option String) : Act → Prop
  | .invoke place _ _ | .invokeWith place _ _ _ => BoundTo past place sender
  | _ => sender = lastGiven Act.sender? past

theorem lastGiven_concat {α : Type} (give : Act → Option α) (past : List Deed) (deed : Deed) :
    lastGiven give (past ++ [deed]) = (give deed.act).or (lastGiven give past) := by
  unfold lastGiven
  rw [List.filterMap_append, List.getLast?_append]
  cases here : give deed.act <;> simp [here]

theorem settled_concat (member : SetupUpdate → Option Nat) (default : Nat) (past : List Deed)
    (deed : Deed) : settled member default (past ++ [deed]) =
      (deed.act.update?.bind member).getD (settled member default past) := by
  unfold settled
  rw [lastGiven_concat]
  cases deed.act.update?.bind member <;> rfl

theorem boundTo_later {past : List Deed} {place : Nat} {sender : Option String}
    (bound : BoundTo past place sender) (deed : Deed) :
    BoundTo (past ++ [deed]) place ((deed.act.connected? place).or sender) := by
  obtain ⟨before, maker, after, rfl, made, count, rfl⟩ := bound
  refine ⟨before, maker, after ++ [deed], by simp, made, count, ?_⟩
  rw [lastGiven_concat, Option.or_assoc]

theorem boundTo_made (past : List Deed) {deed : Deed} (made : deed.made = true) :
    BoundTo (past ++ [deed]) (past.countP (·.made))
      (if deed.act.inherits then lastGiven Act.sender? past else none) :=
  ⟨past, deed, [], rfl, made, rfl, by simp [lastGiven]⟩

def setupAfter (settings : Settings) (past : List Deed) : Setup where
  chainId := settings.network.chainId % 2 ^ 15
  version := settings.network.chainId % 2 ^ 15 * 2 ^ 16 + 1
  attempts := settled (·.attempts) settings.transactions.attempts past
  timeout := settled (·.timeout) settings.transactions.timeout past
  gasPrice := settled (·.gasPrice) settings.transactions.gasPrice past * 10 ^ 6
  gasLimit := settled (·.gasLimit) settings.transactions.gasLimit past

theorem version_exact (chainId : Nat) :
    messageVersion (chainId % Setup.chainCount) = chainId % 2 ^ 15 * 2 ^ 16 + 1 := by
  simp only [messageVersion, Setup.chainCount, Word.count32]
  omega

theorem setup_start (settings : Settings) : Setup.ofSettings settings = setupAfter settings [] := by
  rw [Setup.ofSettings, Setup.ofTransactions, version_exact]
  rfl

theorem setup_step {ctx : Context} {settings : Settings} {past : List Deed}
    (before : ctx.setup = setupAfter settings past) (act : Act) (made : Bool) :
    (act.context ctx).setup = setupAfter settings (past ++ [⟨act, made⟩]) := by
  simp only [setupAfter, settled_concat]
  cases act with
  | updateSetup update =>
    simp only [Act.context, Context.updateSetup, before, setupAfter, Setup.update, Act.update?,
      Option.bind_some, unitsPerPrice]
    cases update.gasPrice <;> simp
  | _ => exact before

theorem sender_step {ctx : Context} {past : List Deed}
    (before : ctx.sender = lastGiven Act.sender? past) (act : Act) (made : Bool) :
    (act.context ctx).sender = lastGiven Act.sender? (past ++ [⟨act, made⟩]) := by
  rw [lastGiven_concat]
  cases act with
  | setSender sender => rfl
  | _ => exact before

theorem contracts_step (ctx : Context) (act : Act) :
    (act.context ctx).contracts = ctx.contracts := by
  cases act <;> rfl

theorem connected_length (act : Act) (bindings : List Binding) :
    (act.connected bindings).length = bindings.length := by
  cases act with
  | connect place sender => exact List.length_modify ..
  | _ => rfl

theorem connected_binding (act : Act) (bindings : List Binding) (place : Nat) :
    (act.connected bindings)[place]? = bindings[place]?.map fun b =>
      { b with executer := (act.connected? place).or b.executer } := by
  cases act with
  | connect other sender =>
    rw [Act.connected, List.getElem?_modify]
    by_cases here : other = place
    · simp [here, Act.connected?, Binding.connect]
    · simp [here, Act.connected?]
  | _ => simp [Act.connected, Act.connected?]

theorem connectTo_executer (entry : Entry) (address : String) (ctx : Context) :
    ((Binding.bind entry address).connectTo ctx).executer = ctx.sender := by
  unfold Binding.connectTo
  split <;> rename_i sender <;> rw [sender] <;> rfl

theorem submitDeploy_executer {client : Client σ} {chain : σ} {ctx : Context}
    {request : Result (Entry × DeployRequest)} {b : Binding}
    (made : (Context.submitDeploy client chain ctx request).2.toOption = some b) :
    b.executer = ctx.sender := by
  cases request with
  | error fault => cases made
  | ok request =>
    obtain ⟨entry, request⟩ := request
    rw [Context.submitDeploy] at made
    split at made
    · cases made
      exact connectTo_executer entry _ ctx
    · cases made

theorem fromAddress_executer {client : Client σ} {chain : σ} {ctx : Context}
    {dump : String → Result String} {address : String} {b : Binding}
    (made : (ctx.fromAddress client chain dump address).toOption.join = some b) :
    b.executer = ctx.sender := by
  have found : ctx.fromAddress client chain dump address = .ok (some b) :=
    Result.toOption_some_iff.mp (Option.join_eq_some_iff.mp made)
  obtain ⟨code, _, found⟩ := Result.bind_ok_iff.mp found
  cases code with
  | none => cases found
  | some code =>
    obtain ⟨_, _, found⟩ := Result.bind_ok_iff.mp found
    obtain ⟨_, _, found⟩ := Result.bind_ok_iff.mp found
    cases found
    exact connectTo_executer _ address ctx

theorem binding_executer {client : Client σ} {files : Files} {s : Session σ} {act : Act}
    {b : Binding} (made : act.binding? client files s = some b) :
    b.executer = if act.inherits then s.ctx.sender else none := by
  cases act with
  | deploy name options args => exact submitDeploy_executer made
  | deployWith name options args overrides => exact submitDeploy_executer made
  | deployLibrary name => exact submitDeploy_executer made
  | fromAddress address dump => exact fromAddress_executer made
  | bind entry address =>
    cases made
    rfl
  | _ => cases made

structure Remembers (settings : Settings) (contracts : Entries) (past : List Deed)
    (s : Session σ) : Prop where
  setup : s.ctx.setup = setupAfter settings past
  contracts : s.ctx.contracts = contracts
  sender : s.ctx.sender = lastGiven Act.sender? past
  count : s.bindings.length = past.countP (·.made)
  bound : ∀ place b, s.bindings[place]? = some b → BoundTo past place b.executer

variable {client : Client σ} {settings : Settings} {contracts : Entries} {past : List Deed}
  {s : Session σ}

theorem bound_step (kept : Remembers settings contracts past s) (files : Files) (act : Act)
    {place : Nat} {b : Binding}
    (here : (s.step client files act).bindings[place]? = some b) :
    BoundTo (past ++ [⟨act, (act.binding? client files s).isSome⟩]) place b.executer := by
  rw [step, List.getElem?_append, connected_length, connected_binding] at here
  split at here
  · obtain ⟨old, found, rfl⟩ := Option.map_eq_some_iff.mp here
    exact boundTo_later (kept.bound place old found) _
  · rename_i beyond
    cases made : act.binding? client files s with
    | none => simp [made] at here
    | some new =>
      obtain ⟨last, rfl⟩ : place - s.bindings.length = 0 ∧ new = b := by
        simpa [made, List.getElem?_singleton] using here
      obtain rfl : place = s.bindings.length := by omega
      rw [kept.count, binding_executer made, kept.sender]
      exact boundTo_made past rfl

theorem step_remembers (kept : Remembers settings contracts past s) (files : Files) (act : Act) :
    Remembers settings contracts (past ++ [⟨act, (act.binding? client files s).isSome⟩])
      (s.step client files act) where
  setup := setup_step kept.setup act _
  contracts := (contracts_step s.ctx act).trans kept.contracts
  sender := sender_step kept.sender act _
  count := by
    rw [step, List.length_append, connected_length, kept.count, List.countP_append]
    cases act.binding? client files s <;> rfl
  bound _ _ := bound_step kept files act

theorem run_remembers (run : Run client settings contracts past s) :
    Remembers settings contracts past s := by
  induction run with
  | start chain => exact ⟨setup_start settings, rfl, rfl, rfl, by simp⟩
  | moved before chain ih => exact ⟨ih.setup, ih.contracts, ih.sender, ih.count, ih.bound⟩
  | next before files act ih => exact step_remembers ih files act

end Session

def Request.params : Request → CallParams
  | .deploy request => request.params
  | .call request => request.params

def Request.retry : Request → RetryPolicy
  | .deploy request => request.retry
  | .call request => request.retry

namespace Submission

def Overridden (ctx : Context) : Submission → Option Overrides → Prop
  | .invoke b transition args, o => ∃ component positional,
      b.contract.component? transition = some component ∧
      Call.Splits component.params.length args positional o
  | .invokeWith _ _ _ overrides, o => o = some overrides
  | .deploy name _ args, o => ∃ entry positional, ctx.contract name = .ok entry ∧
      DeploySplits entry.contract.params args positional o
  | .deployWith _ _ _ overrides, o => o = overrides
  | .deployLibrary _, o => o = none
  | .deployFile _ _ overrides, o => o = overrides

def sender (ctx : Context) : Submission → Option String
  | .invoke b _ _ | .invokeWith b _ _ _ => b.executer
  | _ => ctx.sender

theorem requests_params {ctx : Context} {files : Files} {submission : Submission}
    {request : Request} (requests : Requests ctx files submission request) :
    ∃ overrides, submission.Overridden ctx overrides ∧
      request.params = ctx.params (submission.sender ctx) overrides ∧
      request.retry = ctx.setup.retry := by
  cases requests with
  | invoke found splits encodings => exact ⟨_, ⟨_, _, found, splits⟩, rfl, rfl⟩
  | invokeWith found encodings => exact ⟨_, rfl, rfl, rfl⟩
  | deploy known splits encodings read => exact ⟨_, ⟨_, _, known, splits⟩, rfl, rfl⟩
  | deployWith known encodings read => exact ⟨_, rfl, rfl, rfl⟩
  | deployLibrary known read => exact ⟨_, rfl, rfl, rfl⟩
  | deployFile read => exact ⟨_, rfl, rfl, rfl⟩

end Submission

namespace Session
variable {client : Client σ} {settings : Settings} {contracts : Entries} {past : List Deed}
  {s : Session σ}

theorem sent_requests {files : Files} {act : Act} {request : Request}
    (member : request ∈ s.sent client files act) :
    ∃ submission, act.submission? s.bindings = some submission ∧
      Submission.Requests s.ctx files submission request := by
  unfold sent at member
  cases here : act.submission? s.bindings with
  | none => simp [here] at member
  | some submission =>
    rw [here] at member
    dsimp only at member
    rw [Submission.perform_eq_send, Submission.send_recorded] at member
    have prepared := Result.toOption_some_iff.mp (Option.mem_toList.mp member)
    exact ⟨submission, rfl, Submission.prepared_ok_iff.mp prepared⟩

theorem submission_sender (kept : Remembers settings contracts past s) {act : Act}
    {submission : Submission} (here : act.submission? s.bindings = some submission) :
    SentFrom past (submission.sender s.ctx) act := by
  cases act with
  | invoke place | invokeWith place =>
    obtain ⟨b, found, rfl⟩ := Option.map_eq_some_iff.mp here
    exact kept.bound place b found
  | deploy | deployWith | deployLibrary | deployFile =>
    cases here
    exact kept.sender
  | _ => cases here

/-- The layers of a request: what it overrides itself, and below that what the session has come
to. -/
structure Layered (settings : Settings) (past : List Deed) (own : Overrides)
    (sender : Option String) (request : Request) : Prop where
  version : request.params.version =
    own.version.getD (settings.network.chainId % 2 ^ 15 * 2 ^ 16 + 1)
  amount : request.params.amount = own.amount.getD 0
  gasPrice : request.params.gasPrice =
    own.gasPrice.getD (settled (·.gasPrice) settings.transactions.gasPrice past * 10 ^ 6)
  gasLimit : request.params.gasLimit =
    own.gasLimit.getD (settled (·.gasLimit) settings.transactions.gasLimit past)
  nonce : request.params.nonce = own.nonce
  sender : request.params.sender = own.sender.or sender
  attempts : request.retry.attempts =
    settled (·.attempts) settings.transactions.attempts past
  interval : request.retry.interval =
    settled (·.timeout) settings.transactions.timeout past

theorem layered_of_setup {ctx : Context} (setup : ctx.setup = setupAfter settings past)
    {sender : Option String} {overrides : Option Overrides} {request : Request}
    (params : request.params = ctx.params sender overrides)
    (retry : request.retry = ctx.setup.retry) :
    Layered settings past (overrides.getD .none) sender request := by
  have resolved : request.params =
      (overrides.getD .none).apply { (setupAfter settings past).callParams with sender } := by
    rw [params, Context.params, setup]
    cases overrides <;> rfl
  rw [setup] at retry
  constructor
  case nonce =>
    rw [resolved]
    exact Option.orElse_eq_or.trans Option.or_none
  case sender =>
    rw [resolved]
    exact Option.orElse_eq_or
  case attempts => rw [retry]; rfl
  case interval => rw [retry]; rfl
  all_goals
    rw [resolved]
    rfl

theorem lastGiven_member {α : Type} {give : Act → Option α} {value : α}
    (last : lastGiven give past = some value) : ∃ deed ∈ past, give deed.act = some value :=
  List.mem_filterMap.mp (List.mem_of_getLast? last)

theorem price_fits (starts : settings.transactions.gasPrice < 2 ^ 64)
    (updated : ∀ deed ∈ past, ∀ price, deed.act.update?.bind (·.gasPrice) = some price →
      price < 2 ^ 64) :
    settled (·.gasPrice) settings.transactions.gasPrice past * 10 ^ 6 < 2 ^ 128 := by
  have price : settled (·.gasPrice) settings.transactions.gasPrice past < 2 ^ 64 := by
    unfold settled
    cases last : lastGiven (fun act => act.update?.bind (·.gasPrice)) past with
    | none => exact starts
    | some price =>
      obtain ⟨deed, member, given⟩ := lastGiven_member last
      exact updated deed member price given
  omega

theorem maker_first {before others after rest : List Deed} {deed maker : Deed}
    (later : others ++ maker :: rest = deed :: after) (made : deed.made = true)
    (count : (before ++ others).countP (·.made) = before.countP (·.made)) : others = [] := by
  cases others with
  | nil => rfl
  | cons other others =>
    obtain ⟨rfl, _⟩ := List.cons.inj later
    rw [List.countP_append, List.countP_cons_of_pos made] at count
    omega

theorem boundTo_unique {place : Nat} {a b : Option String} (first : BoundTo past place a)
    (second : BoundTo past place b) : a = b := by
  obtain ⟨before, deed, after, rfl, made, count, rfl⟩ := first
  obtain ⟨others, maker, rest, same, otherMade, otherCount, rfl⟩ := second
  have counts : others.countP (·.made) = before.countP (·.made) := otherCount.trans count.symm
  obtain ⟨between, rfl, later⟩ | ⟨between, rfl, later⟩ := List.append_eq_append_iff.mp same
  · obtain rfl := maker_first later.symm made counts
    rw [List.nil_append] at later
    cases later
    rw [List.append_nil]
  · obtain rfl := maker_first later.symm otherMade counts.symm
    rw [List.nil_append] at later
    cases later
    rw [List.append_nil]

/-- In any session, whatever was done in it, every request carries its own overrides, member by
member, and beneath them what the history has settled; every binding has the sender that the history
gives it, and no other. The version and every default gas price are computed without overflow. -/
theorem parameters_in_layers (run : Run client settings contracts past s) (files : Files)
    (act : Act) :
    (∀ request ∈ s.sent client files act, ∃ submission overrides sender,
      act.submission? s.bindings = some submission ∧ submission.Overridden s.ctx overrides ∧
      SentFrom past sender act ∧
      Layered settings past (overrides.getD .none) sender request) ∧
    s.ctx.contracts = contracts ∧
    (∀ place b, s.bindings[place]? = some b →
      ∀ sender, BoundTo past place sender ↔ sender = b.executer) ∧
    settings.network.chainId % 2 ^ 15 * 2 ^ 16 + 1 < 2 ^ 32 ∧
    (settings.transactions.gasPrice < 2 ^ 64 →
      (∀ deed ∈ past, ∀ price, deed.act.update?.bind (·.gasPrice) = some price →
        price < 2 ^ 64) →
      settled (·.gasPrice) settings.transactions.gasPrice past * 10 ^ 6 < 2 ^ 128) := by
  have kept := run_remembers run
  refine ⟨?_, kept.contracts, ?_, by omega, price_fits⟩
  · intro request member
    obtain ⟨submission, here, requests⟩ := sent_requests member
    obtain ⟨overrides, overridden, params, retry⟩ := Submission.requests_params requests
    exact ⟨submission, overrides, _, here, overridden, submission_sender kept here,
      layered_of_setup kept.setup params retry⟩
  · intro place b found sender
    have bound := kept.bound place b found
    constructor
    · exact fun other => boundTo_unique other bound
    · rintro rfl
      exact bound

def tillDump : String :=
  "((contr ((cname (Ident (SimpleLocal Till) ())) (cparams ()) (cfields ()) (ccomps (((comp_type" ++
    " CompTrans) (comp_name (Ident (SimpleLocal Pay) ())) (comp_params (((Ident (SimpleLocal to)" ++
    " ()) (PrimType ByStr20))))))))))"

theorem till_pays_for_finder :
    let client := ScriptedChain.client
    let files : Files := ⟨.directory [], []⟩
    let find : Act := .fromAddress "0x17" fun _ => .ok tillDump
    let raise : Act := .updateSetup ⟨some 3000, none, none, none⟩
    let pay : Act := .invoke 0 "Pay" [.text "0xab", .object [("amount", .text "5")]]
    let past : List Deed :=
      [⟨.setSender "02aa", false⟩, ⟨find, true⟩, ⟨.setSender "02bb", false⟩, ⟨raise, false⟩]
    ∃ s : Session ScriptedChain, Run client .default [] past s ∧
      (s.sent client files pay).map (·.params) =
        [⟨111 * 2 ^ 16 + 1, 5, 3000 * 10 ^ 6, 50000, none, some "02aa"⟩] ∧
      (∀ request ∈ s.sent client files pay, ∃ submission overrides sender,
        pay.submission? s.bindings = some submission ∧ submission.Overridden s.ctx overrides ∧
        SentFrom past sender pay ∧
        Layered .default past (overrides.getD .none) sender request) ∧
      settled (·.gasPrice) Settings.default.transactions.gasPrice past * 10 ^ 6 < 2 ^ 128 := by
  intro client files find raise pay past
  let chain : ScriptedChain := { ScriptedChain.empty with codes := [("0x17", "")] }
  let named : Session ScriptedChain :=
    step client files ⟨chain, .new (.ofSettings .default) [], []⟩ (.setSender "02aa")
  have made : (find.binding? client files named).isSome = true := by decide +kernel
  have first : Run client .default [] [⟨.setSender "02aa", false⟩] named :=
    (Run.start chain).next files (.setSender "02aa")
  have found := first.next files find
  rw [made] at found
  have run : Run client .default [] past _ :=
    (found.next files (.setSender "02bb")).next files raise
  obtain ⟨layered, -, -, -, fits⟩ := parameters_in_layers run files pay
  refine ⟨_, run, by decide +kernel, layered, fits (by decide) ?_⟩
  simp [past, Act.update?, find, raise]

end Session
end TypedContracts
