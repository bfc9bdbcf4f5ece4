import TypedContracts.Chain.Scripted
import TypedContracts.Proofs.Session.Submission
import TypedContracts.Session.Draft

/-!
A draft that is used again and again. What it deploys is told by what was done with it since it was
last deployed or cleared; what was given before has no part in it, nor has what came of it.
-/
namespace TypedContracts.Draft
variable {σ : Type}

inductive Op where
  | withName (name : String)
  | withArgs (args : List Json)
  | withOverrides (overrides : Overrides)
  | withCompression
  | withLibraries (libraries : List LinkedLibrary)
  | reset
  | deploy

namespace Op

def ends : Op → Bool
  | .reset | .deploy => true
  | _ => false

def name? : Op → Option String
  | .withName name => some name
  | _ => none

def args? : Op → Option (List Json)
  | .withArgs args => some args
  | _ => none

def overrides? : Op → Option Overrides
  | .withOverrides overrides => some overrides
  | _ => none

def compress? : Op → Option Bool
  | .withCompression => some true
  | _ => none

def libraries? : Op → Option (List LinkedLibrary)
  | .withLibraries libraries => some libraries
  | _ => none

end Op

def step (ctx : Context) (client : Client σ) (files : Files) (d : Draft) (s : σ) : Op → Draft × σ
  | .withName name => (d.withName name, s)
  | .withArgs args => (d.withArgs args, s)
  | .withOverrides overrides => (d.withOverrides overrides, s)
  | .withCompression => (d.withCompression, s)
  | .withLibraries libraries => (d.withLibraries libraries, s)
  | .reset => (empty, s)
  | .deploy =>
    let (left, next, _) := d.deploy ctx client s files
    (left, next)

/-- What was done with a draft, and where that has led. Files may change between two operations in
any way, and so may the chain; no deployment has to succeed. -/
inductive Run (ctx : Context) (client : Client σ) : List Op → Draft → σ → Prop where
  | start (s : σ) : Run ctx client [] empty s
  | moved {past : List Op} {d : Draft} {s : σ} (before : Run ctx client past d s) (later : σ) :
      Run ctx client past d later
  | next {past : List Op} {d : Draft} {s : σ} (before : Run ctx client past d s) (files : Files)
      (op : Op) :
      Run ctx client (past ++ [op]) (d.step ctx client files s op).1
        (d.step ctx client files s op).2

/-- What was done since the draft was last deployed or cleared. -/
def recent (past : List Op) : List Op := past.rtakeWhile fun op => !op.ends

def given {α : Type} (give : Op → Option α) (past : List Op) : Option α :=
  ((recent past).filterMap give).getLast?

theorem given_concat {α : Type} (give : Op → Option α) (past : List Op) (op : Op) :
    given give (past ++ [op]) = if op.ends then none else (give op).or (given give past) := by
  unfold given recent
  cases ends : op.ends with
  | true => simp [ends]
  | false =>
    rw [List.rtakeWhile_concat_pos _ _ _ (by simp [ends]), List.filterMap_append,
      List.getLast?_append]
    cases here : give op <;> simp [here]

def assembled (past : List Op) : Draft where
  name := (given Op.name? past).getD ""
  options := ⟨given Op.libraries? past, (given Op.compress? past).getD false⟩
  overrides := given Op.overrides? past
  args := (given Op.args? past).getD []

/-- Deploying leaves an empty draft, also when it fails. -/
theorem deploy_left (d : Draft) (ctx : Context) (client : Client σ) (s : σ) (files : Files) :
    (d.deploy ctx client s files).1 = empty := by
  unfold deploy
  split <;> rfl

theorem deploy_named {d : Draft} (named : Text.isBlankText d.name = false) (ctx : Context)
    (client : Client σ) (s : σ) (files : Files) :
    d.deploy ctx client s files =
      (empty, ctx.deployWith client s files d.name d.options d.args d.overrides) := by
  simp [deploy, named]

theorem deploy_unnamed {d : Draft} (blank : Text.isBlankText d.name = true) (ctx : Context)
    (client : Client σ) (s : σ) (files : Files) :
    d.deploy ctx client s files = (empty, s, .error .unnamedDeployment) := by
  simp [deploy, blank]

theorem step_assembled (ctx : Context) (client : Client σ) (files : Files) (past : List Op) (s : σ)
    (op : Op) : ((assembled past).step ctx client files s op).1 = assembled (past ++ [op]) := by
  simp only [assembled, given_concat]
  cases op with
  | deploy => exact deploy_left _ ctx client s files
  | _ => rfl

theorem run_assembled {ctx : Context} {client : Client σ} {past : List Op} {d : Draft} {s : σ}
    (run : Run ctx client past d s) : d = assembled past := by
  induction run with
  | start s => rfl
  | moved before later ih => exact ih
  | next before files op ih =>
    rw [ih]
    exact step_assembled ctx client files _ _ op

/-- Whatever came before, and in whatever context, it cannot be told from the draft. -/
theorem recent_decides {τ : Type} {ctx other : Context} {client : Client σ} {stranger : Client τ}
    {past elsewhere : List Op} {d e : Draft} {s : σ} {t : τ} (run : Run ctx client past d s)
    (unrelated : Run other stranger elsewhere e t) (same : recent past = recent elsewhere) :
    d = e := by
  rw [run_assembled run, run_assembled unrelated]
  simp only [assembled, given, same]

/-- After whatever was done with a draft, and whatever came of it, deploying is what it would be
with the last settings since it was last deployed or cleared, and with none where none was given.
Without a name, nothing is sent. -/
theorem deployed_as_given {ctx : Context} {client : Client σ} {past : List Op} {d : Draft} {s : σ}
    (run : Run ctx client past d s) (files : Files) :
    (∀ name, given Op.name? past = some name → Text.isBlankText name = false →
      d.deploy ctx client s files =
        (empty, ctx.deployWith client s files name
          ⟨given Op.libraries? past, (given Op.compress? past).getD false⟩
          ((given Op.args? past).getD []) (given Op.overrides? past))) ∧
    ((∀ name, given Op.name? past = some name → Text.isBlankText name = true) →
      d.deploy ctx client s files = (empty, s, .error .unnamedDeployment) ∧
      (d.deploy ctx client.recording (s, []) files).2.1 = (s, [])) := by
  obtain rfl := run_assembled run
  constructor
  · intro name last named
    have here : (assembled past).name = name := by simp [assembled, last]
    rw [deploy_named (here ▸ named), here]
    rfl
  · intro unnamed
    have blank : Text.isBlankText (assembled past).name = true := by
      cases last : given Op.name? past with
      | none => simp [assembled, last, Text.isBlankText]
      | some name => simpa [assembled, last] using unnamed name last
    refine ⟨deploy_unnamed blank ctx client s files, ?_⟩
    rw [deploy_unnamed blank]

def pot : Entry := ⟨"", "Pot.scilla", ⟨"Pot", some [], [], [], []⟩⟩

theorem pot_deployed_plain :
    let client := ScriptedChain.client
    let ctx : Context := .new (.ofChain 1) [("Pot", pot)]
    let files : Files := ⟨.directory [("Pot.scilla", .file [])], []⟩
    let overrides : Overrides := { Overrides.none with amount := some 5 }
    let lids : List LinkedLibrary := [⟨"Lid", "0x1d"⟩]
    let failed : List Op := [.withName "Pot", .withArgs [.text "1"], .withOverrides overrides,
      .withCompression, .withLibraries lids, .deploy]
    (ctx.deployWith client .empty files "Pot" ⟨some lids, true⟩ [.text "1"]
      (some overrides)).2.toOption = none ∧
    ∃ d s, Run ctx client (failed ++ [.withName "Pot"]) d s ∧
      d.deploy ctx client s files =
        (empty, ctx.deployWith client s files "Pot" ⟨none, false⟩ [] none) ∧
      ∃ left next, Run ctx client (failed ++ [.withName "Pot"] ++ [.deploy]) left next ∧
        left.deploy ctx client next files = (empty, next, .error .unnamedDeployment) := by
  intro client ctx files overrides lids failed
  have given : Run ctx client [.withName "Pot", .withArgs [.text "1"]] _ _ :=
    ((Run.start .empty).next files (.withName "Pot")).next files (.withArgs [.text "1"])
  have all := ((given.next files (.withOverrides overrides)).next files .withCompression).next
    files (.withLibraries lids)
  have named := (all.next files .deploy).next files (.withName "Pot")
  have done := named.next files .deploy
  refine ⟨by decide, _, _, named, ?_, _, _, done, ?_⟩
  · exact (deployed_as_given named files).1 "Pot" rfl (by decide)
  · exact ((deployed_as_given done files).2 nofun).1

end TypedContracts.Draft
