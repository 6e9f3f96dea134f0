import FlowScript.Proofs.Run.Repeated
import FlowScript.Session.Pass

/-!
# The turns of a pass

A pass takes one flow file after the other. The time goes on in between, and the interpreter need not do
the same again, so both belong to the turn of a file. What a turn adds to a session does not depend on
what the session holds already, apart from its files.

## Main definitions

- `Turn` — a flow file of a pass
- `PassSettings.alone` — what the turn of a file gives in a session that holds nothing but files
- `PassSettings.Attempted` — what a turn has to do with runs
- `PassSettings.Story` — what is told in a turn

## Main results

- `PassSettings.process_eq` — a turn adds to a session what it gives alone
- `PassSettings.tidy_processAll` — a pass keeps a workspace tidy
- `PassSettings.story_process` — what is told in a turn is one of the stories
-/

namespace FlowScript

/-- A flow file of a pass, at a time and with what the interpreter then does. -/
structure Turn where
  path : String
  clock : Clock
  interpreter : Interpreter

namespace Session

/-- Adds what was left behind elsewhere; the files are those that are left there. -/
def extend (s more : Session) : Session :=
  { files := more.files
    script := s.script ++ more.script
    report := s.report ++ more.report
    notices := s.notices ++ more.notices }

@[simp] theorem extend_files (s more : Session) : (s.extend more).files = more.files :=
  rfl

@[simp] theorem extend_script (s more : Session) :
    (s.extend more).script = s.script ++ more.script :=
  rfl

@[simp] theorem extend_notices (s more : Session) :
    (s.extend more).notices = s.notices ++ more.notices :=
  rfl

theorem extend_tell (s more : Session) (n : Notice) :
    s.extend (more.tell n) = (s.extend more).tell n := by
  simp [extend, tell]

theorem extend_tellUser (s more : Session) (text : String) :
    s.extend (more.tellUser text) = (s.extend more).tellUser text := by
  simp [extend, tellUser, String.append_assoc]

/-- A session that holds nothing but files. -/
def ofFiles (w : Workspace) : Session :=
  { files := w }

@[simp] theorem ofFiles_files (w : Workspace) : (ofFiles w).files = w :=
  rfl

theorem extend_ofFiles (s : Session) : s.extend (.ofFiles s.files) = s := by
  simp [extend, ofFiles]

end Session

namespace PassSettings

variable (p : PassSettings)

/-- The settings at a time, with what the interpreter then does. -/
def under (clock : Clock) (interpreter : Interpreter) : PassSettings :=
  { p with clock, runner := p.runner.map (fun runner => { runner with interpreter }) }

/-- The settings of a turn. -/
def inTurn (t : Turn) : PassSettings :=
  p.under t.clock t.interpreter

/-- A pass over several flow files. -/
def processTurns (runs : Bool) (turns : List Turn) (s : Session) :
    Session × List Outcome × Option PassError :=
  processAll runs (turns.map (fun t => (p.inTurn t, t.path))) s

/-- What the turn of a file gives in a session that holds nothing but files. -/
def alone (runs : Bool) (w : Workspace) (t : Turn) : Session × Option Outcome × Option PassError :=
  (p.inTurn t).process t.path runs (.ofFiles w)

/-- The turns of flow files when nothing changes in between. -/
def turnsOf (interpreter : Interpreter) (paths : List String) : List Turn :=
  paths.map (fun path => ⟨path, p.clock, interpreter⟩)

theorem inTurn_of_mem_turnsOf {runner : Runner} (hrunner : p.runner = some runner)
    {paths : List String} : ∀ t ∈ p.turnsOf runner.interpreter paths, p.inTurn t = p := by
  intro t ht
  obtain ⟨path, -, rfl⟩ := List.mem_map.mp ht
  rw [inTurn, under, hrunner]
  exact congrArg (fun r => { p with runner := r }) hrunner.symm

/-- A pass over what a path stands for consists of turns under the same settings. -/
theorem processPath_eq_processTurns {path : String} {runs : Bool} {turns : List Turn} {s : Session}
    (htargets : targets s.files path = .ok (turns.map Turn.path))
    (hfits : turns.length ≤ 1 ∨ p.out = "") (hsame : ∀ t ∈ turns, p.inTurn t = p) :
    p.processPath path runs s = p.processTurns runs turns s := by
  have hpairs : (turns.map Turn.path).map (fun path => (p, path)) =
      turns.map (fun t => (p.inTurn t, t.path)) := by
    rw [List.map_map]
    exact List.map_congr_left (fun t ht => by rw [hsame t ht, Function.comp_apply])
  have hguard : ¬((1 < (turns.map Turn.path).length && !p.out.isEmpty) = true) := by
    rcases hfits with hfew | hout
    · simp [Nat.not_lt.mpr hfew]
    · simp [hout]
  rw [processPath, htargets]
  dsimp only
  rw [if_neg hguard, processEach, hpairs, processTurns]

/-- There is no pass over several flow files whose scripts belong into one file. -/
theorem processPath_of_crowded {path : String} {runs : Bool} {turns : List Turn} {s : Session}
    (htargets : targets s.files path = .ok (turns.map Turn.path)) (hmany : 1 < turns.length)
    (hout : p.out ≠ "") :
    p.processPath path runs s = (s, [], some (.crowded turns.length p.out)) := by
  have hguard : (1 < (turns.map Turn.path).length && !p.out.isEmpty) = true := by
    simp [hmany, hout]
  rw [processPath, htargets]
  dsimp only
  rw [if_pos hguard, List.length_map]

/-! ## Turns add to sessions -/

variable (path : String) (runs : Bool) (s more : Session)

theorem place_extend (script : String) :
    p.place script (s.extend more) = (p.place script more).map s.extend := by
  unfold place
  split
  · have hfiles : (s.extend more).files = more.files := rfl
    rw [hfiles]
    cases more.files.write p.out (Utf8.encode script.toList) <;> rfl
  · split
    · simp [Except.map, Session.extend, String.append_assoc]
    · rfl

theorem execute_extend (runner : Runner) (o : Outcome) :
    p.execute runner o (s.extend more) =
      (s.extend (p.execute runner o more).1, (p.execute runner o more).2) := by
  have hattempt : runner.attempt o.result.script o.result.imports
      ((s.extend more).tell (.running (.file o.path))).files =
        runner.attempt o.result.script o.result.imports
          (more.tell (.running (.file o.path))).files := rfl
  have hfiles : ∀ (v : Workspace) (n : Notice), { (s.extend more).tell n with files := v } =
      s.extend { more.tell n with files := v } := by
    intro v n
    simp [Session.extend, Session.tell]
  simp only [execute, hattempt, hfiles]
  generalize runner.attempt o.result.script o.result.imports _ = attempt
  cases attempt.run <;> cases attempt.error <;> simp only [← Session.extend_tell,
    ← Session.extend_tellUser, ← apply_ite s.extend]

/-- A turn adds to a session what it gives alone. -/
theorem process_eq :
    p.process path runs s =
      (s.extend (p.process path runs (.ofFiles s.files)).1,
        (p.process path runs (.ofFiles s.files)).2) := by
  -- any session, not only one that holds nothing but files, may be what the rest is added to
  have hadd : ∀ more : Session, p.process path runs (s.extend more) =
      (s.extend (p.process path runs more).1, (p.process path runs more).2) := by
    intro more
    have hfiles : (s.extend more).files = more.files := rfl
    unfold process
    rw [hfiles]
    cases Flow.load more.files path with
    | error e => simp only [← Session.extend_tell]
    | ok flow =>
      simp only [← Session.extend_tell, place_extend]
      cases p.place (flow.compile p.clock).1.script (more.tell _) with
      | error e => rfl
      | ok placed =>
        simp only [Except.map, ← Session.extend_tellUser, ← apply_ite s.extend, execute_extend]
        generalize (flow.compile p.clock).2 = internal
        cases runs <;> cases p.runner <;> cases internal <;> rfl
  have h := hadd (.ofFiles s.files)
  rwa [Session.extend_ofFiles] at h

/-! ## What a turn has to do with runs -/

/-- What is told at the end of an attempt to run a script. -/
def endingOf (path : String) (a : Attempt) : List Notice :=
  (a.run.map Notice.finished).toList
    ++ (a.error.map (fun e => Notice.failed (.file path) e.message)).toList

/-- What is left behind by the attempt to run the script of an outcome. -/
structure Executed (s : Session) (o : Outcome) (a : Attempt)
    (r : Session × Outcome × Option PassError) : Prop where
  files : r.1.files = a.files
  script : r.1.script = s.script
  notices : r.1.notices = s.notices ++ .running (.file o.path) :: endingOf o.path a
  outcome : r.2.1 = { o with run := a.run }
  error : r.2.2 = a.error.map .run

theorem executed_execute (runner : Runner) (o : Outcome) (s : Session) :
    Executed s o (runner.attempt o.result.script o.result.imports s.files)
      (p.execute runner o s) := by
  have hfiles : (s.tell (.running (.file o.path))).files = s.files := rfl
  simp only [execute, hfiles]
  generalize runner.attempt o.result.script o.result.imports s.files = a
  cases hrun : a.run <;> cases herror : a.error <;> cases hreports : p.reports <;>
    constructor <;> simp [Session.tell, Session.tellUser, endingOf, hrun, herror]

/-- The script has been placed: nothing has changed, or it was written to a file. -/
def Placed (p : PassSettings) (w v : Workspace) : Prop :=
  v = w ∨ p.out ≠ "" ∧ ∃ content, w.write p.out content = .ok v

theorem Placed.eq {p : PassSettings} {w v : Workspace} (h : p.Placed w v) (hout : p.out = "") :
    v = w :=
  h.resolve_right (fun hwritten => hwritten.1 hout)

theorem placed_place {script : String} {placed : Session} (h : p.place script s = .ok placed) :
    p.Placed s.files placed.files := by
  unfold place at h
  split at h
  case isTrue hout =>
    cases hwrite : s.files.write p.out (Utf8.encode script.toList) with
    | error e => simp [hwrite, bind, Except.bind] at h
    | ok v =>
      simp only [hwrite, bind, Except.bind, pure, Except.pure, Except.ok.injEq] at h
      obtain rfl := h
      exact .inr ⟨by simpa using hout, _, hwrite⟩
  case isFalse =>
    split at h
    all_goals
      obtain rfl := Except.ok.inj h
      exact .inl rfl

/-- A turn makes no attempt to run a script, or it leaves behind what an attempt does. -/
inductive Attempted (p : PassSettings) (w : Workspace) :
    Session × Option Outcome × Option PassError → Prop
  | not {r : Session × Option Outcome × Option PassError} (hfiles : p.Placed w r.1.files)
      (hrun : r.2.1.bind Outcome.run = none) : Attempted p w r
  | once {r : Session × Option Outcome × Option PassError} {runner : Runner}
      (hrunner : p.runner = some runner) (script : String) (imports : List String) (v : Workspace)
      (hv : p.Placed w v) (hfiles : r.1.files = (runner.attempt script imports v).files)
      (hrun : r.2.1.bind Outcome.run = (runner.attempt script imports v).run) : Attempted p w r

theorem attempted_process : Attempted p s.files (p.process path runs s) := by
  unfold process
  split
  · exact .not (.inl rfl) rfl
  case h_2 f hload =>
    dsimp only
    split
    · exact .not (.inl rfl) rfl
    case h_2 placed hplace =>
      have hreport : ∀ text : String,
          (if p.reports = true then placed.tellUser text else placed).files = placed.files := by
        intro text
        split <;> rfl
      have hplaced := placed_place p _ hplace
      split
      case h_1 runner hrunner hinternal =>
        have hexecuted := p.executed_execute runner
        exact .once hrunner _ _ _ (hreport _ ▸ hplaced) (hexecuted _ _).files
          (congrArg Outcome.run (hexecuted _ _).outcome)
      case h_2 => exact .not (hreport _ ▸ hplaced) rfl

/-- A pass keeps a workspace tidy. -/
theorem tidy_processAll (turns : List (PassSettings × String)) (h : s.files.Tidy) :
    (processAll runs turns s).1.files.Tidy := by
  induction turns generalizing s with
  | nil => exact h
  | cons turn rest ih =>
    obtain ⟨p, path⟩ := turn
    have hplaced : ∀ {v : Workspace}, p.Placed s.files v → v.Tidy := by
      rintro v (rfl | ⟨-, content, hwrite⟩)
      · exact h
      · exact h.write hwrite
    have hfirst : (p.process path runs s).1.files.Tidy := by
      cases attempted_process p path runs s with
      | not hfiles => exact hplaced hfiles
      | once hrunner script imports v hv hfiles =>
        rw [hfiles]
        exact Runner.tidy_attempt _ script imports (hplaced hv)
    rw [processAll]
    dsimp only
    exact ih _ hfirst

/-! ## What is told in a turn -/

variable {p path runs} {w : Workspace}

/-- What is told when a flow was compiled. -/
def toldOf (p : PassSettings) (path : String) (f : Flow) : Compilation :=
  .ofCompiled path f (f.compile p.clock).1 (f.compile p.clock).2

/-- The script of a flow is run: that was asked for, there is something that runs scripts, and the
compiler did not fail. -/
def Runs (p : PassSettings) (runs : Bool) (f : Flow) : Prop :=
  runs = true ∧ p.runner.isSome = true ∧ (f.compile p.clock).2 = none

/-- How a run ends: its result is told, or why it failed, or both. -/
inductive Ending (path : String) : List Notice → Prop
  | finished (r : Run) : Ending path [.finished r]
  | finishedAndFailed (r : Run) (e : RunError) :
      Ending path [.finished r, .failed (.file path) e.message]
  | failed (e : RunError) : Ending path [.failed (.file path) e.message]

/-- What is told in the turn of a file. -/
inductive Story (p : PassSettings) (path : String) (runs : Bool) (w : Workspace) : List Notice → Prop
  /-- The file cannot be loaded. -/
  | unloaded {e : LoadError} (h : Flow.load w path = .error e) :
      Story p path runs w [.unloaded { source := path, error := e.message }]
  /-- The flow is compiled and not run. -/
  | compiled {f : Flow} (h : Flow.load w path = .ok f) (hruns : ¬ p.Runs runs f) :
      Story p path runs w [.compiled (p.toldOf path f)]
  /-- The flow is compiled and run. -/
  | ran {f : Flow} (h : Flow.load w path = .ok f) (hruns : p.Runs runs f) {ending : List Notice}
      (hending : Ending path ending) :
      Story p path runs w (.compiled (p.toldOf path f) :: .running (.file path) :: ending)

/-- The script that is shown in a turn. -/
def shown (p : PassSettings) (f : Flow) : String :=
  if p.showsScript then (f.compile p.clock).1.script else ""

/-- The outcome of a flow that was not run. -/
def compiledOf (p : PassSettings) (path : String) (f : Flow) : Outcome :=
  { path, flow := f, issues := f.issues, result := (f.compile p.clock).1 }

theorem place_of_out (hout : p.out = "") (script : String) (s : Session) :
    p.place script s = .ok { s with script := s.script ++ if p.showsScript then script else "" } := by
  unfold place
  rw [hout]
  cases p.showsScript <;> simp

theorem process_of_error {e : LoadError} (h : Flow.load w path = .error e) :
    p.process path runs (.ofFiles w) =
      ({ files := w, notices := [.unloaded { source := path, error := e.message }] }, none,
        some (.load e)) := by
  have hload : Flow.load (Session.ofFiles w).files path = .error e := h
  unfold process
  rw [hload]
  rfl

/-- The session of a turn once the flow is compiled. -/
def compiledSession (p : PassSettings) (path : String) (w : Workspace) (f : Flow) : Session :=
  { files := w
    script := p.shown f
    report := if p.reports then compileReport p.colored path f f.issues (f.compile p.clock).1 else ""
    notices := [.compiled (p.toldOf path f)] }

theorem place_compiled (path : String) (w : Workspace) (hout : p.out = "") (f : Flow) :
    ∃ placed, p.place (f.compile p.clock).1.script
        ((Session.ofFiles w).tell (.compiled (p.toldOf path f))) = .ok placed ∧
      (if p.reports then placed.tellUser
          (compileReport p.colored path f f.issues (f.compile p.clock).1) else placed) =
        p.compiledSession path w f := by
  refine ⟨_, place_of_out hout _ _, ?_⟩
  cases hreports : p.reports <;>
    simp [compiledSession, hreports, Session.tellUser, Session.tell, Session.ofFiles, shown]

/-- A turn ends with the compilation if the flow is not run. -/
theorem process_of_not_runs (hout : p.out = "") {f : Flow} (h : Flow.load w path = .ok f)
    (hruns : ¬ p.Runs runs f) :
    p.process path runs (.ofFiles w) =
      (p.compiledSession path w f, some (p.compiledOf path f),
        (f.compile p.clock).2.map .internal) := by
  have hload : Flow.load (Session.ofFiles w).files path = .ok f := h
  obtain ⟨placed, hplace, hreport⟩ := place_compiled path w hout f
  unfold toldOf at hplace
  unfold process
  rw [hload]
  simp only [hplace, hreport]
  split
  case h_1 hrunner hinternal => exact absurd ⟨rfl, by simp [hrunner], hinternal⟩ hruns
  case h_2 => rfl

/-- The attempt to run the script of a flow. -/
def attemptOf (p : PassSettings) (runner : Runner) (w : Workspace) (f : Flow) : Attempt :=
  runner.attempt (f.compile p.clock).1.script (f.compile p.clock).1.imports w

/-- What is left behind by a turn in which the script of a flow is run. -/
structure Ran (p : PassSettings) (path : String) (f : Flow) (a : Attempt)
    (r : Session × Option Outcome × Option PassError) : Prop where
  files : r.1.files = a.files
  script : r.1.script = p.shown f
  notices : r.1.notices =
    .compiled (p.toldOf path f) :: .running (.file path) :: endingOf path a
  outcome : r.2.1 = some { p.compiledOf path f with run := a.run }
  error : r.2.2 = a.error.map .run

/-- A turn goes on after the compilation if the flow is run. -/
theorem ran_process (hout : p.out = "") {f : Flow} (h : Flow.load w path = .ok f)
    (hruns : p.Runs runs f) {runner : Runner} (hrunner : p.runner = some runner) :
    Ran p path f (p.attemptOf runner w f) (p.process path runs (.ofFiles w)) := by
  obtain ⟨rfl, -, hinternal⟩ := hruns
  have hload : Flow.load (Session.ofFiles w).files path = .ok f := h
  obtain ⟨placed, hplace, hreport⟩ := place_compiled path w hout f
  have hprocess : p.process path true (.ofFiles w) =
      ((p.execute runner (p.compiledOf path f) (p.compiledSession path w f)).1,
        some (p.execute runner (p.compiledOf path f) (p.compiledSession path w f)).2.1,
        (p.execute runner (p.compiledOf path f) (p.compiledSession path w f)).2.2) := by
    unfold toldOf at hplace
    unfold process
    rw [hload]
    simp only [hplace, hreport]
    simp only [hrunner, hinternal]
    rfl
  have h := p.executed_execute runner (p.compiledOf path f) (p.compiledSession path w f)
  rw [hprocess]
  exact ⟨h.files, h.script, h.notices, congrArg some h.outcome, h.error⟩

theorem ending_endingOf {a : Attempt} (h : a.run = none → a.error ≠ none) :
    Ending path (endingOf path a) := by
  unfold endingOf
  cases hrun : a.run with
  | none =>
    obtain ⟨e, he⟩ := Option.ne_none_iff_exists'.mp (h hrun)
    rw [he]
    exact .failed e
  | some r =>
    cases a.error with
    | none => exact .finished r
    | some e => exact .finishedAndFailed r e

/-- What is told in a turn is one of the stories. -/
theorem story_process (hout : p.out = "") :
    p.Story path runs w (p.process path runs (.ofFiles w)).1.notices := by
  cases hload : Flow.load w path with
  | error e =>
    rw [process_of_error hload]
    exact .unloaded hload
  | ok f =>
    by_cases hruns : p.Runs runs f
    · obtain ⟨runner, hrunner⟩ := Option.isSome_iff_exists.mp hruns.2.1
      rw [(ran_process hout hload hruns hrunner).notices]
      exact .ran hload hruns (ending_endingOf (runner.error_of_attempt _ _))
    · rw [process_of_not_runs hout hload hruns]
      exact .compiled hload hruns

end PassSettings

end FlowScript
