import TypedContracts.Chain.Scripted
import TypedContracts.Proofs.Cache.Names
import TypedContracts.Proofs.Cache.Origin
import TypedContracts.Proofs.Session.Submission

/-!
The source behind a deployment. The arguments are checked against an entry that a context got from
the cache when it was made, and the source is read again when it is sent. Nothing compares the two,
so a source that was edited in between goes out with an init list for the parameters it had before.
-/
namespace TypedContracts
variable {σ : Type}

namespace Submission

/-- The known contract whose source a submission sends as it stands. -/
def plain? : Submission → Option String
  | .deploy name options _ => if options.compress then none else some name
  | .deployWith name options _ _ => if options.compress then none else some name
  | .deployLibrary name => some name
  | .deployFile _ _ _ | .invoke _ _ _ | .invokeWith _ _ _ _ => none

def InitFor (e : Entry) (init : List Param) : Prop :=
  init = libraryInit ∨ ∃ libraries args values,
    Call.Encodings e.contract.paramList args values ∧
      init = versionParam :: ((Option.map librariesParam libraries).toList ++ values)

/-- A request to deploy the contract that a context knows by a name: the init list is one of its
entry, the code is what its source holds. -/
structure Deploys (ctx : Context) (files : Files) (name : String) (request : Request) (e : Entry)
    (deployment : DeployRequest) : Prop where
  request : request = .deploy deployment
  known : ctx.contract name = .ok e
  init : InitFor e deployment.init
  code : files.readText e.path = .ok deployment.code

/-- Nothing of a request but the code depends on the source. -/
theorem plain_requests {ctx : Context} {files : Files} {submission : Submission}
    {request : Request} {name : String} (plain : submission.plain? = some name)
    (requests : Requests ctx files submission request) :
    ∃ e deployment, Deploys ctx files name request e deployment ∧
      ∀ others code, others.readText e.path = .ok code →
        Requests ctx others submission (.deploy { deployment with code }) := by
  cases requests with
  | invoke found splits encodings => cases plain
  | invokeWith found encodings => cases plain
  | deploy known splits encodings read =>
    obtain ⟨uncompressed, same⟩ := Option.ite_none_left_eq_some.mp plain
    cases same
    simp only [Bool.not_eq_true] at uncompressed
    rw [uncompressed, sourceCode_plain] at read
    refine ⟨_, _, ⟨rfl, known, .inr ⟨_, _, _, encodings, rfl⟩, read⟩, fun others code again => ?_⟩
    exact .deploy known splits encodings (by rw [uncompressed, sourceCode_plain, again])
  | deployWith known encodings read =>
    obtain ⟨uncompressed, same⟩ := Option.ite_none_left_eq_some.mp plain
    cases same
    simp only [Bool.not_eq_true] at uncompressed
    rw [uncompressed, sourceCode_plain] at read
    refine ⟨_, _, ⟨rfl, known, .inr ⟨_, _, _, encodings, rfl⟩, read⟩, fun others code again => ?_⟩
    exact .deployWith known encodings (by rw [uncompressed, sourceCode_plain, again])
  | deployLibrary known read =>
    cases plain
    exact ⟨_, _, ⟨rfl, known, .inl rfl, read⟩, fun others code again => .deployLibrary known again⟩
  | deployFile read => cases plain

end Submission

/-- The sources, the cache of what is known about them, the contexts made from it so far, and the
chain. -/
structure Bench (σ : Type) where
  files : Files
  cache : Cache
  contexts : List Context
  chain : σ

namespace Bench

/-- What can be done at a bench; a context is meant by its place in the order. An edit may change
any file. -/
inductive Act where
  | edit (files : Files)
  | update (compiler : Compiler) (root : String)
  | refresh (compiler : Compiler) (root : String)
  | construct (setup : Setup)
  | submit (place : Nat) (submission : Submission)

def Act.compiler? : Act → Option Compiler
  | .update compiler _ | .refresh compiler _ => some compiler
  | _ => none

def step (client : Client σ) (b : Bench σ) : Act → Bench σ
  | .edit files => { b with files }
  | .update compiler root => { b with cache := (b.cache.update b.files compiler root).cache }
  | .refresh compiler root =>
    { b with
      cache := (b.cache.refresh b.files compiler root).1.cache
      files := (b.cache.refresh b.files compiler root).2 }
  | .construct setup =>
    { b with contexts := b.contexts ++ (Context.ofEntries setup b.cache.entries).toOption.toList }
  | .submit place submission =>
    match b.contexts[place]? with
    | some ctx => { b with chain := submission.perform client b.chain ctx b.files }
    | none => b

def after (client : Client σ) (start : Bench σ) (acts : List Act) : Bench σ :=
  acts.foldl (step client) start

theorem after_concat (client : Client σ) (start : Bench σ) (acts : List Act) (act : Act) :
    start.after client (acts ++ [act]) = (start.after client acts).step client act :=
  List.foldl_concat ..

def sent (client : Client σ) (b : Bench σ) (ctx : Context) (submission : Submission) :
    List Request :=
  (submission.perform client.recording (b.chain, []) ctx b.files).2

theorem sent_iff {client : Client σ} {b : Bench σ} {ctx : Context} {submission : Submission}
    {request : Request} : request ∈ b.sent client ctx submission ↔
      Submission.Requests ctx b.files submission request := by
  rw [sent, Submission.perform_eq_send, Submission.send_recorded, Option.mem_toList,
    Result.toOption_some_iff, Submission.prepared_ok_iff]

/-- At some moment of the run an update made the entry from what its source held then. -/
def Origin (client : Client σ) (start : Bench σ) (acts : List Act) (e : Entry) : Prop :=
  ∃ earlier act later compiler, acts = earlier ++ act :: later ∧ act.compiler? = some compiler ∧
    Cache.Made (start.after client earlier).files compiler e

variable {client : Client σ} {start : Bench σ} {acts : List Act} {e : Entry}

theorem origin_later (origin : Origin client start acts e) (act : Act) :
    Origin client start (acts ++ [act]) e := by
  obtain ⟨earlier, maker, later, compiler, rfl, made⟩ := origin
  exact ⟨earlier, maker, later ++ [act], compiler, by simp, made⟩

theorem origin_now {act : Act} {compiler : Compiler} (updates : act.compiler? = some compiler)
    (made : Cache.Made (start.after client acts).files compiler e) :
    Origin client start (acts ++ [act]) e :=
  ⟨acts, act, [], compiler, rfl, updates, made⟩

structure Traced (client : Client σ) (start : Bench σ) (acts : List Act) (b : Bench σ) : Prop where
  placed : Cache.Placed b.cache.entries
  entries : ∀ key e, (key, e) ∈ b.cache.entries → Origin client start acts e
  contexts : ∀ ctx ∈ b.contexts, ∀ name e, (name, e) ∈ ctx.contracts →
    e.contract.name = name ∧ Origin client start acts e

theorem traced_now {b : Bench σ} (traced : Traced client start acts b) {act : Act}
    {compiler : Compiler} (updates : act.compiler? = some compiler)
    (here : b = start.after client acts) (root : String) {key : String}
    (member : (key, e) ∈ (b.cache.update b.files compiler root).cache.entries) :
    Origin client start (acts ++ [act]) e := by
  rcases Cache.update_origin member with before | made
  · exact origin_later (traced.entries key e before) act
  · exact origin_now updates (here ▸ made.2)

theorem traced_contexts {b : Bench σ} (traced : Traced client start acts b) (act : Act) :
    ∀ ctx ∈ b.contexts, ∀ name e, (name, e) ∈ ctx.contracts →
      e.contract.name = name ∧ Origin client start (acts ++ [act]) e := by
  intro ctx member name e known
  obtain ⟨named, origin⟩ := traced.contexts ctx member name e known
  exact ⟨named, origin_later origin act⟩

theorem step_traced {b : Bench σ} (traced : Traced client start acts b)
    (here : b = start.after client acts) (act : Act) :
    Traced client start (acts ++ [act]) (b.step client act) := by
  have later : ∀ key e, (key, e) ∈ b.cache.entries → Origin client start (acts ++ [act]) e :=
    fun key e member => origin_later (traced.entries key e member) act
  have contexts := traced_contexts traced act
  cases act with
  | edit files => exact ⟨traced.placed, later, contexts⟩
  | update compiler root =>
    exact ⟨Cache.update_placed traced.placed _ _ _, fun _ _ => traced_now traced rfl here root,
      contexts⟩
  | refresh compiler root =>
    have cache : (b.step client (.refresh compiler root)).cache =
        (b.cache.update b.files compiler root).cache := Cache.refresh_cache _ _ _ _
    refine ⟨?_, ?_, contexts⟩
    · rw [cache]
      exact Cache.update_placed traced.placed _ _ _
    · rw [cache]
      exact fun _ _ => traced_now traced rfl here root
  | construct setup =>
    refine ⟨traced.placed, later, ?_⟩
    intro ctx member name e known
    rcases List.mem_append.mp member with old | new
    · exact contexts ctx old name e known
    · have made := Result.toOption_some_iff.mp (Option.mem_toList.mp new)
      obtain ⟨named, listed, made⟩ := Result.bind_ok_iff.mp made
      cases made
      obtain ⟨same, key, inside⟩ := Entries.byName_member listed known
      exact ⟨same, later key e inside⟩
  | submit place submission =>
    simp only [step]
    split <;> exact ⟨traced.placed, later, contexts⟩

theorem run_traced (blank : start.cache.entries = []) (bare : start.contexts = [])
    (acts : List Act) : Traced client start acts (start.after client acts) := by
  induction acts using List.reverseRecOn with
  | nil =>
    refine ⟨⟨?_, ?_⟩, ?_, ?_⟩
    all_goals simp [after, blank, bare, Json.Sorted]
  | append_singleton acts act ih =>
    rw [after_concat]
    exact step_traced ih rfl act

theorem text_hash {files : Files} {path code : String} (read : files.readText path = .ok code) :
    fileHash files path = .ok (Digest.textHash code) := by
  rw [fileHash, Files.readText_ok_iff.mp read]
  rfl

theorem contract_member {ctx : Context} {name : String} (known : ctx.contract name = .ok e) :
    (name, e) ∈ ctx.contracts := by
  obtain ⟨_, _, split, _⟩ := List.lookup_eq_some_iff.mp (Result.ofOption_ok_iff.mp known)
  rw [split]
  simp

/-- Whatever was done, a source is sent as it stands, with an init list for the parameters that it
had at some earlier moment. The hash of its entry, which it had then, is that of the code just if the
source has not changed its hash. Nothing is changed where the context comes from an update that ended
well and no edit came after it. -/
theorem sent_code_checked_iff (client : Client σ) (start : Bench σ)
    (blank : start.cache.entries = []) (bare : start.contexts = []) (acts : List Act) :
    let bench := start.after client acts
    (∀ ctx ∈ bench.contexts, ∀ submission name request, submission.plain? = some name →
      request ∈ bench.sent client ctx submission →
        ∃ e deployment earlier act later compiler,
          Submission.Deploys ctx bench.files name request e deployment ∧
          acts = earlier ++ act :: later ∧ act.compiler? = some compiler ∧
          Cache.Made (start.after client earlier).files compiler e ∧
          (Digest.textHash deployment.code = e.hash ↔
            fileHash bench.files e.path = fileHash (start.after client earlier).files e.path) ∧
          ∀ files code, files.readText e.path = .ok code →
            .deploy { deployment with code } ∈ { bench with files }.sent client ctx submission) ∧
    ∀ compiler root setup report ctx,
      let outcome := bench.cache.update bench.files compiler root
      outcome.report = .ok report → Context.ofEntries setup outcome.cache.entries = .ok ctx →
        ∀ submission name request, submission.plain? = some name →
          request ∈ bench.sent client ctx submission →
            ∃ e deployment, Submission.Deploys ctx bench.files name request e deployment ∧
              Digest.textHash deployment.code = e.hash := by
  intro bench
  have traced : Traced client start acts bench := run_traced blank bare acts
  constructor
  · intro ctx member submission name request plain sent
    obtain ⟨e, deployment, deploys, edited⟩ :=
      Submission.plain_requests plain (sent_iff.mp sent)
    obtain ⟨_, earlier, act, later, compiler, split, updates, made⟩ :=
      traced.contexts ctx member name e (contract_member deploys.known)
    refine ⟨e, deployment, earlier, act, later, compiler, deploys, split, updates, made, ?_,
      fun files code read => sent_iff.mpr (edited files code read)⟩
    rw [text_hash deploys.code, made.hash, Except.ok.injEq]
  · intro compiler root setup report ctx outcome done constructed submission name request plain sent
    obtain ⟨e, deployment, deploys, _⟩ := Submission.plain_requests plain (sent_iff.mp sent)
    obtain ⟨named, listed, made⟩ := Result.bind_ok_iff.mp constructed
    cases made
    obtain ⟨_, key, inside⟩ := Entries.byName_member listed (contract_member deploys.known)
    have current := Cache.update_current traced.placed done inside
    rw [text_hash deploys.code] at current
    exact ⟨e, deployment, deploys, Except.ok.inj current⟩

def room (text : String) : Files :=
  ⟨.directory [("Vault.scilla", .file (Text.Utf8.bytesOf text))], []⟩

theorem room_file (text : String) : (room text).node "/Vault.scilla" =
    .ok (["Vault.scilla"], .file (Text.Utf8.bytesOf text)) :=
  Files.node_file rfl rfl (by decide) (by decide) (by decide) rfl

theorem room_bytes (text : String) :
    (room text).readBytes "/Vault.scilla" = .ok (Text.Utf8.bytesOf text) :=
  Files.readBytes_file (room_file text)

theorem room_sources (text : String) :
    (room text).canonical "/" >>= Source.search (room text) = .ok ["/Vault.scilla"] := by
  have found : Source.find (room text) "/" = ["/Vault.scilla"] :=
    Source.find_alone rfl (room_file text) (by decide) (by decide)
  exact Source.search_canonical_iff.mpr ⟨"/", Files.canonical_top _,
    Source.listed_alone rfl (room_file text) (by decide), found.symm⟩

def owned : String := "contract Vault (owner: ByStr20)"

def limited : String := "contract Vault (owner: ByStr20, limit: Uint128)"

def ownedDump : String :=
  "((contr ((cname (Ident (SimpleLocal Vault) ())) (cparams (((Ident (SimpleLocal owner) ())" ++
    " (PrimType ByStr20)))) (cfields ()) (ccomps ()))))"

def compiler : Compiler :=
  .ofBytes fun _ bytes =>
    if bytes = Text.Utf8.bytesOf owned then .ok ownedDump else .error .json

def entry : Entry :=
  ⟨Digest.textHash owned, "/Vault.scilla",
    ⟨"Vault", some [⟨"owner", "ByStr20", .primitive "ByStr20"⟩], [], [], []⟩⟩

def vaultBench : Bench ScriptedChain := ⟨room owned, ⟨"cache", []⟩, [], .empty⟩

def opening : List Act := [.update compiler "/", .construct (.ofSettings .default)]

def vaultContext : Context := .new (.ofSettings .default) [("Vault", entry)]

def address : String := "0x0000000000000000000000000000000000000001"

def deployVault : Submission := .deploy "Vault" ⟨none, false⟩ [.text address]

def ownedInit : List Param := [versionParam, ⟨"owner", "ByStr20", .scalar address⟩]

theorem owned_model : Source.model (room owned) compiler "/Vault.scilla" = .ok entry.contract := by
  have plain : Source.isLibrary "/Vault.scilla" = false := by decide
  have read : Dump.read ownedDump = .ok entry.contract := by decide +kernel
  rw [compiler, Source.model_of_bytes _ (room_bytes owned), Source.modelOfBytes, plain]
  simp [bind, Except.bind, read]

theorem owned_updated : ((⟨"cache", []⟩ : Cache).update (room owned) compiler "/").cache =
    ⟨"cache", [("/Vault.scilla", entry)]⟩ := by
  have hash : fileHash (room owned) "/Vault.scilla" = .ok entry.hash := by
    rw [fileHash, room_bytes]
    rfl
  simp [Cache.update, room_sources, Cache.Pass.scan, hash, Cache.Pass.visit,
    owned_model, Cache.Pass.accept, Cache.Pass.prune, Json.insertMember, entry]

theorem opened : vaultBench.after ScriptedChain.client opening =
    ⟨room owned, ⟨"cache", [("/Vault.scilla", entry)]⟩, [vaultContext], .empty⟩ := by
  have constructed : Context.ofEntries (.ofSettings .default) [("/Vault.scilla", entry)] =
      .ok vaultContext := rfl
  simp [after, opening, step, vaultBench, owned_updated, constructed, Except.toOption]

theorem vault_requests {files : Files} {code : String}
    (read : files.readText "/Vault.scilla" = .ok code) :
    Submission.Requests vaultContext files deployVault (.deploy ⟨code, ownedInit,
      vaultContext.params none none, vaultContext.setup.retry⟩) := by
  have encoded : Call.Encodings [⟨"owner", "ByStr20", .primitive "ByStr20"⟩] [.text address]
      [⟨"owner", "ByStr20", .scalar address⟩] := .cons (by decide) .nil
  have known : vaultContext.contract "Vault" = .ok entry := rfl
  exact .deploy known (.exact rfl) encoded ((Submission.sourceCode_plain _ _).trans read)

theorem unedited_vault_sent :
    let bench := vaultBench.after ScriptedChain.client opening
    ∃ ctx ∈ bench.contexts, ∃ request ∈ bench.sent ScriptedChain.client ctx deployVault,
      ∃ e deployment, Submission.Deploys ctx bench.files "Vault" request e deployment ∧
        Digest.textHash deployment.code = e.hash := by
  intro bench
  have read : bench.files.readText "/Vault.scilla" = .ok owned := by
    simp only [bench, opened]
    exact Files.readText_bytes (room_bytes owned)
  have member : vaultContext ∈ bench.contexts := by simp [bench, opened]
  have sent : _ ∈ bench.sent ScriptedChain.client vaultContext deployVault :=
    sent_iff.mpr (vault_requests read)
  obtain ⟨e, deployment, earlier, act, later, compiler, deploys, split, updates, -, same, -⟩ :=
    (sent_code_checked_iff ScriptedChain.client vaultBench rfl rfl opening).1 vaultContext member
      deployVault "Vault" _ rfl sent
  refine ⟨vaultContext, member, _, sent, e, deployment, deploys, same.mpr ?_⟩
  -- The update is the first act, so the files were those of the start.
  cases earlier with
  | nil =>
    simp only [opened]
    rfl
  | cons first earlier =>
    cases earlier with
    | nil =>
      cases split
      cases updates
    | cons second earlier => simp [opening] at split

/-- An edit after the update goes out with an init list for the parameters before it. -/
theorem edited_vault_sent :
    let bench := vaultBench.after ScriptedChain.client (opening ++ [.edit (room limited)])
    ∃ ctx ∈ bench.contexts, ∃ e deployment, ctx.contract "Vault" = .ok e ∧
      .deploy deployment ∈ bench.sent ScriptedChain.client ctx deployVault ∧
      e.hash = Digest.textHash owned ∧ deployment.code = limited ∧
      deployment.init = ownedInit ∧ Digest.textHash deployment.code ≠ e.hash := by
  intro bench
  have here : bench =
      ⟨room limited, ⟨"cache", [("/Vault.scilla", entry)]⟩, [vaultContext], .empty⟩ := by
    simp only [bench, after_concat, opened]
    rfl
  have differ : Digest.textHash limited ≠ Digest.textHash owned := by decide +kernel
  have read : bench.files.readText "/Vault.scilla" = .ok limited := by
    rw [here]
    exact Files.readText_bytes (room_bytes limited)
  refine ⟨vaultContext, by simp [here], entry, _, rfl, sent_iff.mpr (vault_requests read), rfl,
    rfl, rfl, differ⟩

end Bench
end TypedContracts
