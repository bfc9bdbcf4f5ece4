import TypedContracts.Proofs.Session.Layers

/-!
How often a request is tried. Settings are only accepted with at least one attempt, but an update
of the setup may give any number, zero as well. The last number that was given counts for every
request from then on.
-/
namespace TypedContracts
variable {σ : Type}

theorem Settings.validate_attempts {s : Settings} (valid : s.validate = .ok ()) :
    1 ≤ s.transactions.attempts := by
  unfold validate at valid
  split at valid
  · cases valid
  · omega

namespace Setup

theorem update_attempts (s : Setup) (u : SetupUpdate) :
    (s.update u).attempts = u.attempts.getD s.attempts := rfl

theorem updated_attempts (s : Setup) (updates : List SetupUpdate) :
    (updates.foldl update s).attempts = (updates.filterMap (·.attempts)).getLast?.getD s.attempts := by
  induction updates using List.reverseRecOn with
  | nil => rfl
  | append_singleton updates u ih =>
    rw [List.foldl_concat, update_attempts, ih, List.filterMap_append, List.getLast?_append]
    cases here : u.attempts <;> simp [here]

end Setup

namespace Session
variable {client : Client σ} {settings : Settings} {contracts : Entries} {past : List Deed}
  {s : Session σ}

theorem run_updated (client : Client σ) (settings : Settings) (contracts : Entries)
    (updates : List SetupUpdate) (chain : σ) :
    Run client settings contracts (updates.map fun u => ⟨.updateSetup u, false⟩)
      ⟨chain, .new (updates.foldl Setup.update (.ofSettings settings)) contracts, []⟩ := by
  induction updates using List.reverseRecOn with
  | nil => exact .start chain
  | append_singleton updates u ih =>
    rw [List.map_append, List.foldl_concat]
    exact ih.next ⟨.directory [], []⟩ (.updateSetup u)

theorem positive_iff {initial : Nat} (positive : 1 ≤ initial) (given : Option Nat) :
    1 ≤ given.getD initial ↔ given ≠ some 0 := by
  cases given with
  | none => simp [positive]
  | some n =>
    rw [Option.getD_some, ne_eq, Option.some.injEq]
    omega

theorem run_attempts (run : Run client settings contracts past s) : s.ctx.setup.attempts =
    (lastGiven (fun act => act.update?.bind (·.attempts)) past).getD
      settings.transactions.attempts := by
  rw [(run_remembers run).setup]
  rfl

theorem sent_attempts {files : Files} {act : Act} {request : Request}
    (member : request ∈ s.sent client files act) :
    request.retry.attempts = s.ctx.setup.attempts := by
  obtain ⟨submission, _, requests⟩ := sent_requests member
  obtain ⟨_, _, _, retry⟩ := Submission.requests_params requests
  rw [retry]
  rfl

/-- From settings that are accepted, every request is tried at least once just as long as zero is
not the last number that an update gave, be it before there was a context or in it. -/
theorem attempts_positive_iff (valid : settings.validate = .ok ())
    (updates : List SetupUpdate) (run : Run client settings contracts past s) (files : Files)
    (act : Act) :
    let setup := updates.foldl Setup.update (.ofSettings settings)
    let given := lastGiven (fun act => act.update?.bind (·.attempts)) past
    (1 ≤ setup.attempts ↔ (updates.filterMap (·.attempts)).getLast? ≠ some 0) ∧
      (∀ chain, Run client settings contracts (updates.map fun u => ⟨.updateSetup u, false⟩)
        ⟨chain, .new setup contracts, []⟩) ∧
      (1 ≤ s.ctx.setup.attempts ↔ given ≠ some 0) ∧
      ∀ request ∈ s.sent client files act,
        request.retry.attempts = given.getD settings.transactions.attempts ∧
          (1 ≤ request.retry.attempts ↔ given ≠ some 0) := by
  intro setup given
  have positive : 1 ≤ settings.transactions.attempts := Settings.validate_attempts valid
  have attempts : s.ctx.setup.attempts = given.getD settings.transactions.attempts :=
    run_attempts run
  refine ⟨?_, run_updated client settings contracts updates, ?_, ?_⟩
  · rw [Setup.updated_attempts]
    exact positive_iff positive _
  · rw [attempts]
    exact positive_iff positive given
  · intro request member
    rw [sent_attempts member, attempts]
    exact ⟨rfl, positive_iff positive given⟩

def till : Entry := ⟨"", "Till.scilla", ⟨"Till", some [], [], [⟨"CompTrans", "Pay", []⟩], []⟩⟩

def attempting (n : Nat) : List Deed :=
  [⟨.bind till "0x17", true⟩, ⟨.updateSetup ⟨none, none, some n, none⟩, false⟩]

def updated (n : Nat) : Session ScriptedChain :=
  ⟨.empty, (Context.new (.ofSettings .default) []).updateSetup ⟨none, none, some n, none⟩,
    [.bind till "0x17"]⟩

theorem run_attempting (n : Nat) :
    Run ScriptedChain.client .default [] (attempting n) (updated n) :=
  ((Run.start ScriptedChain.empty).next ⟨.directory [], []⟩ (.bind till "0x17")).next ⟨.directory [], []⟩
    (.updateSetup ⟨none, none, some n, none⟩)

theorem thrice_sent :
    let files : Files := ⟨.directory [], []⟩
    (updated 3).sent ScriptedChain.client files (.invoke 0 "Pay" []) ≠ [] ∧
      ∀ request ∈ (updated 3).sent ScriptedChain.client files (.invoke 0 "Pay" []),
        request.retry.attempts = 3 := by
  intro files
  have whole := attempts_positive_iff (by decide) [] (run_attempting 3) files (.invoke 0 "Pay" [])
  exact ⟨by decide, fun request member => (whole.2.2.2 request member).1⟩

/-- A request that is never tried. -/
theorem untried_sent :
    let files : Files := ⟨.directory [], []⟩
    Settings.default.validate = .ok () ∧
      Run ScriptedChain.client .default [] (attempting 0) (updated 0) ∧
      ((updated 0).sent ScriptedChain.client files (.invoke 0 "Pay" [])).map (·.retry.attempts) =
        [0] :=
  ⟨by decide, run_attempting 0, by decide⟩

end Session
end TypedContracts
