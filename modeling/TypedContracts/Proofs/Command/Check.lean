import TypedContracts.Command.Run
import TypedContracts.Proofs.Files.Write
import TypedContracts.Proofs.Result

/-!
Checking files with programs that may remember earlier runs, so that the number and the order of the
runs show. Either a file is missing and no program is started, or each file has its check in turn and
the response tells of each of them.
-/
namespace TypedContracts.CheckRun

variable {σ : Type} {settings : Settings} {t : Toolchain} {starter : Starter (StateM σ)}
  {files : Files} {library : Option String} {paths : List String} {s : σ}

/-- The files to check: those given or, without any, the contracts below the settings' directory. -/
inductive Chosen (settings : Settings) (files : Files) : List String → List String → Prop where
  | given {paths : List String} (some : paths ≠ []) : Chosen settings files paths paths
  | found {sources : List String} (present : files.exists? settings.sources.directory = true)
      (searched : Source.search files settings.sources.directory = .ok sources) :
      Chosen settings files []
        (sources.filter fun path => Path.extension? path == some Source.contractExtension)

/-- From one state to the next, the check of one file: its command is started once, or there is none
that can be started. -/
inductive FileCheck (t : Toolchain) (starter : Starter (StateM σ)) (files : Files)
    (library : Option String) (path : String) : σ → Result String → σ → Prop where
  | started {program : String} {arguments : List String} {s s' : σ} {finished : Option Finished}
      (command : t.checkCommand files path library = .ok (program :: arguments))
      (clean : (program :: arguments).any Text.hasNull = false)
      (once : (starter program arguments).run s = (finished, s')) :
      FileCheck t starter files library path s (Toolchain.outcome program finished) s'
  | refused {program : String} {arguments : List String} {s : σ}
      (command : t.checkCommand files path library = .ok (program :: arguments))
      (null : (program :: arguments).any Text.hasNull = true) :
      FileCheck t starter files library path s
        (.error (.toolchain (.notStarted program .nullCharacter))) s
  | impossible {e : Error} {s : σ} (command : t.checkCommand files path library = .error e) :
      FileCheck t starter files library path s (.error e) s

inductive Checks (t : Toolchain) (starter : Starter (StateM σ)) (files : Files)
    (library : Option String) : σ → CheckRun → σ → Prop where
  | nil {s : σ} : Checks t starter files library s [] s
  | cons {path : String} {verdict : Result String} {rest : CheckRun} {s s' s'' : σ}
      (first : FileCheck t starter files library path s verdict s')
      (later : Checks t starter files library s' rest s'') :
      Checks t starter files library s ((path, verdict) :: rest) s''

def verdictLine (c : String × Result String) : String :=
  match c.2 with
  | .ok _ => "✓ " ++ c.1 ++ "\n"
  | .error e => "✗ " ++ c.1 ++ ": " ++ e.message ++ "\n"

def summaryLine (run : CheckRun) : String :=
  if 2 ≤ run.length then
    toString (run.countP (·.2.toBool)) ++ " of " ++ toString run.length ++
      " contracts checked cleanly\n"
  else ""

structure Reported (run : CheckRun) (r : Response) : Prop where
  clean : r.code = 0 ↔ ∀ c ∈ run, c.2.toBool = true
  faulty : r.code ≠ 0 → r.code = 1
  lines : r.errors = String.join (run.map verdictLine) ++ summaryLine run
  reports : r.output = String.join (run.filterMap (·.2.toOption))

theorem listed_ok {given : List String} (list : Chosen settings files given paths) :
    Invocation.listed settings files given = .ok paths := by
  cases list with
  | given some => simp [Invocation.listed, some]
  | found present searched =>
    simp [Invocation.listed, CheckRun.contractsBelow, Files.require, present, searched, bind,
      Except.bind, pure, Except.pure]

theorem requireAll_ok (present : ∀ path ∈ paths, files.exists? path = true) :
    CheckRun.requireAll files paths = .ok () := by
  induction paths with
  | nil => rfl
  | cons path rest ih =>
    obtain ⟨here, later⟩ := List.forall_mem_cons.mp present
    rw [CheckRun.requireAll, Files.require, if_pos here]
    exact ih later

theorem requireAll_missing (missing : ∃ path ∈ paths, files.exists? path = false) :
    ∃ path ∈ paths, CheckRun.requireAll files paths = .error (.file path .absent) := by
  induction paths with
  | nil => simp at missing
  | cons path rest ih =>
    by_cases here : files.exists? path = true
    · obtain ⟨other, member, absent⟩ := missing
      have later : other ∈ rest := by
        rcases List.mem_cons.mp member with rfl | later
        · simp [here] at absent
        · exact later
      obtain ⟨first, among, told⟩ := ih ⟨other, later, absent⟩
      refine ⟨first, List.mem_cons_of_mem path among, ?_⟩
      rw [CheckRun.requireAll, Files.require, if_pos here]
      exact told
    · refine ⟨path, List.mem_cons_self, ?_⟩
      rw [CheckRun.requireAll, Files.require, if_neg here]
      rfl

theorem checkCommand_program {command : List String} {path : String}
    (made : t.checkCommand files path library = .ok command) :
    ∃ program arguments, command = program :: arguments := by
  unfold Toolchain.checkCommand at made
  split at made
  · cases made
  · cases made
    exact ⟨_, _, rfl⟩
  · obtain ⟨input, _, made⟩ := Result.bind_ok_iff.mp made
    cases made
    exact ⟨_, _, rfl⟩
  · obtain ⟨input, _, made⟩ := Result.bind_ok_iff.mp made
    obtain ⟨directory, _, made⟩ := Result.bind_ok_iff.mp made
    cases made
    exact ⟨_, _, rfl⟩

theorem check_file (t : Toolchain) (starter : Starter (StateM σ)) (files : Files)
    (library : Option String) (path : String) (s : σ) :
    FileCheck t starter files library path s ((t.check starter files path library).run s).1
      ((t.check starter files path library).run s).2 := by
  unfold Toolchain.check
  cases made : t.checkCommand files path library with
  | error e => exact .impossible made
  | ok command =>
    obtain ⟨program, arguments, rfl⟩ := checkCommand_program made
    by_cases null : (program :: arguments).any Text.hasNull = true
    · rw [Toolchain.runCommand, Toolchain.run, if_pos null]
      exact .refused made null
    · rw [Toolchain.runCommand, Toolchain.run, if_neg null]
      exact .started made (by simpa using null) rfl

abbrev eachChecked {m : Type → Type} [Monad m] (t : Toolchain) (starter : Starter m) (files : Files)
    (library : Option String) (paths : List String) : m CheckRun :=
  paths.mapM fun path => do return (path, ← t.check starter files path library)

theorem check_files (t : Toolchain) (starter : Starter (StateM σ)) (files : Files)
    (library : Option String) (paths : List String) (s : σ) :
    ∃ run s', (eachChecked t starter files library paths).run s = (run, s') ∧
      Checks t starter files library s run s' ∧ run.map (·.1) = paths := by
  induction paths generalizing s with
  | nil => exact ⟨[], s, rfl, .nil, rfl⟩
  | cons path rest ih =>
    have first := check_file t starter files library path s
    obtain ⟨run, s', later, checks, order⟩ := ih ((t.check starter files path library).run s).2
    refine ⟨(path, ((t.check starter files path library).run s).1) :: run, s', ?_,
      .cons first checks, by rw [List.map_cons, order]⟩
    rw [eachChecked, List.mapM_cons]
    exact congrArg (fun done : CheckRun × σ =>
      ((path, ((t.check starter files path library).run s).1) :: done.1, done.2)) later

theorem verdict_line (c : String × Result String) :
    CheckRun.verdict c.1 c.2 = verdictLine c := by
  obtain ⟨path, verdict⟩ := c
  cases verdict <;> simp [CheckRun.verdict, verdictLine, Listing.lineOf, String.join]

theorem summary_line (run : CheckRun) :
    (if 1 < run.length then run.summary else "") = summaryLine run := by
  have summary : run.summary = toString (run.countP (·.2.toBool)) ++ " of " ++
      toString run.length ++ " contracts checked cleanly\n" := by
    rw [List.countP_eq_length_filter]
    simp [CheckRun.summary, CheckRun.passed, Listing.lineOf, String.join, String.append_assoc]
  rw [summary]
  rfl

theorem reports_passed (run : CheckRun) :
    run.reports = String.join (run.filterMap (·.2.toOption)) := by
  unfold CheckRun.reports
  induction run with
  | nil => rfl
  | cons c run ih =>
    obtain ⟨path, verdict⟩ := c
    rw [List.map_cons, String.join_cons, ih]
    cases verdict with
    | ok report => exact String.join_cons.symm
    | error e => exact String.empty_append

theorem succeeded_iff (run : CheckRun) :
    run.succeeded = true ↔ ∀ c ∈ run, c.2.toBool = true := by
  rw [CheckRun.succeeded, beq_iff_eq, CheckRun.passed, List.length_filter_eq_length_iff]

theorem reported (files : Files) (run : CheckRun) :
    Reported run (Invocation.checked files run) where
  clean := by
    rw [← succeeded_iff, Invocation.checked]
    cases run.succeeded <;> simp
  faulty := by
    unfold Invocation.checked
    cases run.succeeded <;> simp
  lines := by
    simp only [Invocation.checked, CheckRun.verdicts, verdict_line, summary_line]
  reports := reports_passed run

def Stateless {α : Type} (x : StateM σ α) (y : Id α) : Prop := ∀ s, x.run s = (y.run, s)

theorem Stateless.pure {α : Type} (a : α) : Stateless (Pure.pure a : StateM σ α) (Pure.pure a) :=
  fun _ => rfl

theorem Stateless.bind {α β : Type} {x : StateM σ α} {y : Id α} {f : α → StateM σ β} {g : α → Id β}
    (first : Stateless x y) (later : ∀ a, Stateless (f a) (g a)) : Stateless (x >>= f) (y >>= g) := by
  intro s
  rw [StateT.run_bind, first s]
  exact later y.run s

section
variable {programs : Programs}
  (stateless : ∀ program arguments, Stateless (starter program arguments) (programs program arguments))
include stateless

theorem check_stateless (t : Toolchain) (files : Files) (library : Option String) (path : String) :
    Stateless (t.check starter files path library) (t.check programs files path library) := by
  unfold Toolchain.check
  cases made : t.checkCommand files path library with
  | error e => exact .pure _
  | ok command =>
    obtain ⟨program, arguments, rfl⟩ := checkCommand_program made
    simp only [Toolchain.runCommand, Toolchain.run]
    split
    · exact .pure _
    · exact .bind (stateless program arguments) fun _ => .pure _

theorem files_stateless (t : Toolchain) (files : Files) (library : Option String)
    (paths : List String) :
    Stateless (eachChecked t starter files library paths)
      (eachChecked t programs files library paths) := by
  induction paths with
  | nil => exact .pure _
  | cons path rest ih =>
    rw [eachChecked, eachChecked, List.mapM_cons, List.mapM_cons]
    have first := check_stateless stateless t files library path
    exact .bind (.bind first fun _ => .pure _) fun _ => .bind ih fun _ => .pure _

theorem response_stateless (settings : Settings) (files : Files) (given : List String)
    (library : Option String) :
    Stateless (Invocation.check settings starter files given library)
      (Invocation.check settings programs files given library) := by
  unfold Invocation.check
  split
  · exact .pure _
  · refine .bind ?_ fun _ => .pure _
    unfold CheckRun.start
    split
    · exact .pure _
    · exact .bind (files_stateless stateless _ files _ _) fun _ => .pure _

end

/-- With a file missing nothing is started and the code is 2. Otherwise every file has its check, each
is told of once, and the code says whether one failed. -/
theorem checks_all_or_nothing (settings : Settings) (starter : Starter (StateM σ)) (files : Files)
    (given listed : List String) (library : Option String) (s : σ)
    (list : Chosen settings files given listed) :
    let t := Toolchain.ofSettings settings.toolchain
    let libraries := library <|> settings.toolchain.libraryDirectory
    let answer := (Invocation.check settings starter files given library).run s
    ((∃ path ∈ listed, files.exists? path = false) → answer.2 = s ∧ answer.1.code = 2) ∧
    ((∀ path ∈ listed, files.exists? path = true) → ∃ run,
      Checks t starter files libraries s run answer.2 ∧ run.map (·.1) = listed ∧
        Reported run answer.1) ∧
    ∀ programs : Programs,
      (∀ program arguments, Stateless (starter program arguments) (programs program arguments)) →
      answer = (Invocation.runWith settings programs files (.check given library), s) := by
  intro t libraries answer
  refine ⟨fun missing => ?_, fun present => ?_, fun programs stateless => ?_⟩
  · obtain ⟨path, _, told⟩ := requireAll_missing missing
    have failed : answer = (.failed files (.file path .absent), s) := by
      simp only [answer, Invocation.check, listed_ok list, CheckRun.start, told]
      rfl
    rw [failed]
    exact ⟨rfl, rfl⟩
  · obtain ⟨run, s', done, checks, order⟩ := check_files t starter files libraries listed s
    have finished : answer = (Invocation.checked files run, s') := by
      simp only [answer, Invocation.check, listed_ok list, CheckRun.start, requireAll_ok present]
      exact congrArg (fun done : CheckRun × σ => (Invocation.checked files done.1, done.2)) done
    rw [finished]
    exact ⟨run, checks, order, reported files run⟩
  · exact response_stateless stateless settings files given library s

def firstFails : Starter (StateM (List String)) := fun _ arguments => do
  let earlier ← get
  set (earlier ++ [arguments.getLastD ""])
  return some ⟨if earlier.isEmpty then 1 else 0, [], []⟩

theorem second_checked_after_failure :
    let settings : Settings := { Settings.default with toolchain := ⟨true, "", some "/lib"⟩ }
    let files : Files := ⟨.directory [("A.scilla", .file []), ("B.scilla", .file [])], []⟩
    let answer (given : List String) :=
      (Invocation.check settings firstFails files given none).run []
    let given := ["/A.scilla", "/B.scilla"]
    let missing := ["/A.scilla", "/C.scilla"]
    (∃ run, Checks .native firstFails files (some "/lib") [] run (answer given).2 ∧
      run.map (·.1) = given ∧ Reported run (answer given).1) ∧
    (answer given).2 = given ∧ (answer given).1.code = 1 ∧
    (answer missing).2 = [] ∧ (answer missing).1.code = 2 := by
  intro settings files answer given missing
  have first : files.node "/A.scilla" = .ok (["A.scilla"], .file []) :=
    Files.node_file rfl rfl (by decide) (by decide) (by decide) rfl
  have second : files.node "/B.scilla" = .ok (["B.scilla"], .file []) :=
    Files.node_file rfl rfl (by decide) (by decide) (by decide) rfl
  have third : files.node "/C.scilla" = .error .notFound := by
    have steps : Files.steps "/C.scilla" = ["C.scilla"] := by decide
    exact Files.node_missing rfl rfl steps (by decide) (by decide) rfl
  have present : ∀ path ∈ given, files.exists? path = true := by
    simp [given, Files.exists?, first, second, Except.toBool]
  have absent : ∃ path ∈ missing, files.exists? path = false :=
    ⟨"/C.scilla", by simp [missing], by simp [Files.exists?, third, Except.toBool]⟩
  have some : given ≠ [] ∧ missing ≠ [] := by simp [given, missing]
  obtain ⟨_, every, _⟩ :=
    checks_all_or_nothing settings firstFails files given given none [] (.given some.1)
  obtain ⟨nothing, _, _⟩ :=
    checks_all_or_nothing settings firstFails files missing missing none [] (.given some.2)
  have ended : (answer given).2 = given ∧ (answer given).1.code = 1 := by
    simp only [answer, Invocation.check, listed_ok (.given some.1), start, requireAll_ok present]
    decide +kernel
  exact ⟨every present, ended.1, ended.2, nothing absent⟩

end TypedContracts.CheckRun
