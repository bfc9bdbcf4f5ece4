import TypedContracts.Chain.Scripted
import TypedContracts.Proofs.Call.OverridesStored
import TypedContracts.Proofs.Session.Submission

/-!
Overrides behind the arguments and overrides given apart. Written behind as many arguments as there
are parameters they make the same request as when they are given apart, whatever they set; empty
ones make the request that is made without any.
-/
namespace TypedContracts
variable {σ : Type}

theorem split_exact (target : String) {expected : Nat} {args : List Json}
    (count : args.length = expected) :
    Call.splitArguments target expected args = .ok (args, none) :=
  Call.splitArguments_ok_iff.mpr (.exact count)

theorem split_written {o : Overrides} (fits : o.Fits) {j : Json} (written : o.Written j)
    (target : String) {expected : Nat} {args : List Json} (count : args.length = expected) :
    Call.splitArguments target expected (args ++ [j]) = .ok (args, some o) :=
  Call.splitArguments_ok_iff.mpr (.overridden count (Call.written_read fits written))

section Calls
variable {b : Binding} {transition : String} {component : Component} {args : List Json}

theorem paramsOf_found (found : b.contract.component? transition = some component) :
    b.paramsOf transition = .ok component.params :=
  Submission.paramsOf_ok_iff.mpr ⟨component, found, rfl⟩

theorem prepare_exact (ctx : Context)
    (found : b.contract.component? transition = some component)
    (count : args.length = component.params.length) :
    b.prepare ctx transition args =
      b.callRequest ctx transition component.params args none := by
  rw [Binding.prepare, paramsOf_found found]
  change (Call.splitArguments transition component.params.length args >>= _) = _
  rw [split_exact transition count]
  rfl

theorem prepareWith_found (ctx : Context) (o : Overrides)
    (found : b.contract.component? transition = some component) :
    b.prepareWith ctx transition args o =
      b.callRequest ctx transition component.params args (some o) := by
  rw [Binding.prepareWith, paramsOf_found found]
  rfl

theorem prepare_written (ctx : Context) {o : Overrides} (fits : o.Fits) {j : Json}
    (written : o.Written j) (found : b.contract.component? transition = some component)
    (count : args.length = component.params.length) :
    b.prepare ctx transition (args ++ [j]) = b.prepareWith ctx transition args o := by
  rw [prepareWith_found ctx o found, Binding.prepare, paramsOf_found found]
  change (Call.splitArguments transition component.params.length (args ++ [j]) >>= _) = _
  rw [split_written fits written transition count]
  rfl

theorem callRequest_none (ctx : Context) (params : List Field) :
    b.callRequest ctx transition params args (some .none) =
      b.callRequest ctx transition params args none := rfl

end Calls

section Deployments
variable {ctx : Context} {name : String} {entry : Entry} {fields : List Field} {args : List Json}

theorem prepareDeploy_split (files : Files) (options : DeployOptions)
    (known : ctx.contract name = .ok entry) (listed : entry.contract.params = some fields)
    {given : List Json} {overrides : Option Overrides}
    (split : Call.splitArguments (deploymentTarget name) fields.length given =
      .ok (args, overrides)) :
    ctx.prepareDeploy files name options given =
      ctx.prepareDeployWith files name options args overrides := by
  rw [Context.prepareDeploy, known]
  change (Context.deployArguments name entry.contract.params given >>= _) = _
  rw [listed, Context.deployArguments, split]
  rfl

theorem prepareDeploy_exact (files : Files) (options : DeployOptions)
    (known : ctx.contract name = .ok entry) (listed : entry.contract.params = some fields)
    (count : args.length = fields.length) :
    ctx.prepareDeploy files name options args =
      ctx.prepareDeployWith files name options args none :=
  prepareDeploy_split files options known listed (split_exact _ count)

theorem prepareDeployWith_none (files : Files) (options : DeployOptions) :
    ctx.prepareDeployWith files name options args (some .none) =
      ctx.prepareDeployWith files name options args none := rfl

end Deployments

/-- Behind the arguments or apart, on a call or a deployment, overrides do the same. -/
theorem trailing_overrides_explicit (client : Client σ) (s : σ) (ctx : Context) {o : Overrides}
    (fits : o.Fits) {j : Json} (written : o.Written j) :
    Overrides.ofJson? j = some o ∧
    (∀ (b : Binding) transition component args,
      b.contract.component? transition = some component →
      args.length = component.params.length →
        b.prepare ctx transition (args ++ [j]) = b.prepareWith ctx transition args o ∧
        b.invoke client s ctx transition (args ++ [j]) =
          b.invokeWith client s ctx transition args o ∧
        (o = .none → b.invokeWith client s ctx transition args o =
          b.invoke client s ctx transition args)) ∧
    ∀ files name options entry fields args, ctx.contract name = .ok entry →
      entry.contract.params = some fields → args.length = fields.length →
        ctx.prepareDeploy files name options (args ++ [j]) =
          ctx.prepareDeployWith files name options args (some o) ∧
        ctx.deploy client s files name options (args ++ [j]) =
          ctx.deployWith client s files name options args (some o) ∧
        (o = .none →
          ctx.deployWith client s files name options args (some o) =
            ctx.deployWith client s files name options args none ∧
          ctx.deployWith client s files name options args none =
            ctx.deploy client s files name options args) := by
  refine ⟨Call.written_read fits written, ?_, ?_⟩
  · intro b transition component args found count
    have prepared := prepare_written ctx fits written found count
    refine ⟨prepared, ?_, ?_⟩
    · rw [Binding.invoke, prepared, Binding.invokeWith]
    · rintro rfl
      rw [Binding.invokeWith, Binding.invoke, prepareWith_found ctx .none found,
        prepare_exact ctx found count, callRequest_none]
  · intro files name options entry fields args known listed count
    have prepared := prepareDeploy_split files options known listed
      (split_written fits written (deploymentTarget name) count)
    have plain := prepareDeploy_exact files options known listed count
    refine ⟨prepared, ?_, ?_⟩
    · rw [Context.deploy, prepared, Context.deployWith]
    · rintro rfl
      refine ⟨?_, ?_⟩
      · rw [Context.deployWith, prepareDeployWith_none, Context.deployWith]
      · rw [Context.deploy, plain, Context.deployWith]

def pay : Component := ⟨"CompTrans", "Pay", [(Field.ofPrimitive "ByStr20").named "to"]⟩

def bank : Contract :=
  ⟨"Bank", some [(Field.ofPrimitive "ByStr20").named "owner"], [], [pay], []⟩

def largest : Overrides :=
  { Overrides.none with amount := some (Word.count128 - 1), gasPrice := some (Word.count128 - 1) }

theorem largest_fits : largest.Fits where
  amount := by simp [largest, Word.count128]
  gasPrice := by simp [largest, Word.count128]
  gasLimit := by simp [largest, Overrides.none]
  nonce := by simp [largest, Overrides.none]
  version := by simp [largest, Overrides.none]

theorem largest_amount_trailing :
    let entry : Entry := ⟨"", "Bank.scilla", bank⟩
    let ctx : Context := .new (.ofChain 1) [("Bank", entry)]
    let files : Files := ⟨.directory [("Bank.scilla", .file [])], []⟩
    let options : DeployOptions := ⟨none, false⟩
    let b := Binding.bind entry "0xba"
    let args : List Json := [.text "0xab"]
    largest.Fits ∧ largest.Written largest.toJson ∧
      (b.prepareWith ctx "Pay" args largest).map (·.params.amount) = .ok (2 ^ 128 - 1) ∧
      b.invoke ScriptedChain.client .empty ctx "Pay" (args ++ [largest.toJson]) =
        b.invokeWith ScriptedChain.client .empty ctx "Pay" args largest ∧
      ctx.deploy ScriptedChain.client .empty files "Bank" options (args ++ [largest.toJson]) =
        ctx.deployWith ScriptedChain.client .empty files "Bank" options args (some largest) := by
  intro entry ctx files options b args
  have written := largest.toJson_written
  obtain ⟨-, called, deployed⟩ :=
    trailing_overrides_explicit ScriptedChain.client .empty ctx largest_fits written
  have amount : (b.prepareWith ctx "Pay" args largest).map (·.params.amount) =
      .ok (2 ^ 128 - 1) := by decide
  have sameCall := (called b "Pay" pay args (by decide) rfl).2.1
  have sameDeployment := (deployed files "Bank" options entry _ args rfl rfl rfl).2.1
  exact ⟨largest_fits, written, amount, sameCall, sameDeployment⟩

end TypedContracts
