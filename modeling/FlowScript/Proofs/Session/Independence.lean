import FlowScript.Proofs.Flow.Files
import FlowScript.Proofs.Session.Turns

/-!
# Flows do not affect each other

The flow files that a path stands for are taken in turn. Whatever becomes of one of them, the next one
fares as it would alone. There is one exception: when the directory for figures cannot be created, a
first attempt may leave directories behind, and later turns may be told another reason.

## Main definitions

- `Notice.Alike` — notices that agree up to the reason why the directory could not be created
- `PassSettings.Told` — what is told in a turn, compared with what is told in the turn alone
- `PassSettings.Independent` — a pass adds what its turns give alone

## Main results

- `PassSettings.independent_processTurns` — turns do not affect each other
-/

namespace FlowScript

/-- Notices that agree up to the reason why the directory for figures could not be created. -/
inductive Notice.Alike : Notice → Notice → Prop
  | refl (n : Notice) : Alike n n
  | failed (subject : Subject) (e e' : FileError) :
      Alike (.failed subject (RunError.figuresDir e).message)
        (.failed subject (RunError.figuresDir e').message)

theorem Notice.Alike.forall₂_refl (ns : List Notice) : List.Forall₂ Notice.Alike ns ns :=
  List.forall₂_same.mpr (fun n _ => .refl n)

namespace PassSettings

/-- The directory for figures, empty if none are written. -/
def figuresDir (p : PassSettings) : String :=
  p.runner.elim "" Runner.figuresDir

/-- If scripts are run and figures are wanted, their directory can be created. -/
def DrawsFreely (p : PassSettings) (runs : Bool) (w : Workspace) : Prop :=
  runs = true → p.figuresDir ≠ "" → (w.ensureDirectories p.figuresDir.toList).2 = none

variable {p : PassSettings} {path : String} {runs : Bool} {w w' : Workspace}

theorem figuresDir_inTurn (p : PassSettings) (t : Turn) : (p.inTurn t).figuresDir = p.figuresDir := by
  unfold figuresDir inTurn under
  cases p.runner <;> rfl

/-! ## One turn after others -/

/-- Results of a turn that agree up to the reason why the directory for figures could not be
created. -/
structure AlikeTurns (r r' : Session × Option Outcome × Option PassError) : Prop where
  notices : List.Forall₂ Notice.Alike r.1.notices r'.1.notices
  script : r'.1.script = r.1.script
  outcome : r'.2.1 = r.2.1

/-- A turn gives what it gives alone if the directory for figures has made no trouble yet. -/
theorem process_of_unspoilt (hout : p.out = "") (h : Unspoilt p.figuresDir w w')
    (hload : Flow.load w' path = Flow.load w path) :
    (p.process path runs (.ofFiles w')).1.notices = (p.process path runs (.ofFiles w)).1.notices ∧
      (p.process path runs (.ofFiles w')).1.script = (p.process path runs (.ofFiles w)).1.script ∧
      (p.process path runs (.ofFiles w')).2 = (p.process path runs (.ofFiles w)).2 ∧
      (Unspoilt p.figuresDir w (p.process path runs (.ofFiles w')).1.files ∨
        Stuck p.figuresDir w (p.process path runs (.ofFiles w')).1.files ∧
          ¬p.DrawsFreely runs w ∧ (p.process path runs (.ofFiles w')).2.2 ≠ none) := by
  cases hflow : Flow.load w path with
  | error e =>
    rw [process_of_error hflow, process_of_error (hload.trans hflow)]
    exact ⟨rfl, rfl, rfl, .inl h⟩
  | ok f =>
    by_cases hruns : p.Runs runs f
    · obtain ⟨runner, hrunner⟩ := Option.isSome_iff_exists.mp hruns.2.1
      have hran := ran_process hout hflow hruns hrunner
      have hran' := ran_process hout (hload.trans hflow) hruns hrunner
      have hdir : p.figuresDir = runner.figuresDir := by simp [figuresDir, hrunner]
      obtain ⟨hrun, herror, hfiles⟩ := runner.attempt_of_unspoilt (f.compile p.clock).1.script
        (f.compile p.clock).1.imports (hdir ▸ h)
      refine ⟨?_, hran'.script.trans hran.script.symm, Prod.ext ?_ ?_, ?_⟩
      · rw [hran.notices, hran'.notices, endingOf, endingOf, attemptOf, attemptOf, hrun, herror]
      · rw [hran.outcome, hran'.outcome, attemptOf, attemptOf, hrun]
      · rw [hran.error, hran'.error, attemptOf, attemptOf, herror]
      · rw [hran'.files, hran'.error, attemptOf, hdir]
        refine hfiles.imp id (fun hstuck => ⟨hstuck.1, ?_, by simpa using hstuck.2⟩)
        intro hfree
        refine hstuck.1.fails ?_
        rw [← hdir]
        exact hfree hruns.1 (hdir ▸ hstuck.1.wanted)
    · rw [process_of_not_runs hout hflow hruns,
        process_of_not_runs hout (hload.trans hflow) hruns]
      exact ⟨rfl, rfl, rfl, .inl h⟩

/-- A turn gives what it gives alone, up to the reason for a failure, once the directory for figures
could not be created. -/
theorem process_of_stuck (hout : p.out = "") (h : Stuck p.figuresDir w w')
    (hload : Flow.load w' path = Flow.load w path) :
    AlikeTurns (p.process path runs (.ofFiles w)) (p.process path runs (.ofFiles w')) ∧
      (p.process path runs (.ofFiles w')).1.files = w' := by
  cases hflow : Flow.load w path with
  | error e =>
    rw [process_of_error hflow, process_of_error (hload.trans hflow)]
    exact ⟨⟨Notice.Alike.forall₂_refl _, rfl, rfl⟩, rfl⟩
  | ok f =>
    by_cases hruns : p.Runs runs f
    · obtain ⟨runner, hrunner⟩ := Option.isSome_iff_exists.mp hruns.2.1
      have hran := ran_process hout hflow hruns hrunner
      have hran' := ran_process hout (hload.trans hflow) hruns hrunner
      have hdir : p.figuresDir = runner.figuresDir := by simp [figuresDir, hrunner]
      obtain ⟨hrun, herror, hfiles⟩ := runner.attempt_of_stuck (f.compile p.clock).1.script
        (f.compile p.clock).1.imports (hdir ▸ h)
      refine ⟨⟨?_, hran'.script.trans hran.script.symm, ?_⟩, hran'.files.trans hfiles⟩
      · rw [hran.notices, hran'.notices, endingOf, endingOf, attemptOf, attemptOf, hrun]
        refine .cons (.refl _) (.cons (.refl _)
          (List.rel_append (Notice.Alike.forall₂_refl _) ?_))
        generalize (runner.attempt _ _ w).error = e at herror ⊢
        generalize (runner.attempt _ _ w').error = e' at herror ⊢
        cases herror with
        | none => exact .nil
        | some halike =>
          cases halike with
          | refl e => exact Notice.Alike.forall₂_refl _
          | figuresDir e e' => exact .cons (.failed _ e e') .nil
      · rw [hran.outcome, hran'.outcome, attemptOf, attemptOf, hrun]
    · rw [process_of_not_runs hout hflow hruns,
        process_of_not_runs hout (hload.trans hflow) hruns]
      exact ⟨⟨Notice.Alike.forall₂_refl _, rfl, rfl⟩, rfl⟩

variable {t : Turn}

theorem alone_of_unspoilt (runs : Bool) (hout : p.out = "") (h : Unspoilt p.figuresDir w w')
    (hload : Flow.load w' t.path = Flow.load w t.path) :
    (p.alone runs w' t).1.notices = (p.alone runs w t).1.notices ∧
      (p.alone runs w' t).1.script = (p.alone runs w t).1.script ∧
      (p.alone runs w' t).2 = (p.alone runs w t).2 ∧
      (Unspoilt p.figuresDir w (p.alone runs w' t).1.files ∨
        Stuck p.figuresDir w (p.alone runs w' t).1.files ∧
          ¬p.DrawsFreely runs w ∧ (p.alone runs w' t).2.2 ≠ none) := by
  have hfree : p.DrawsFreely runs w ↔ (p.inTurn t).DrawsFreely runs w := by
    rw [DrawsFreely, DrawsFreely, figuresDir_inTurn]
  have hturn : (p.inTurn t).out = "" := hout
  rw [← figuresDir_inTurn p t] at h ⊢
  rw [hfree]
  unfold alone
  exact process_of_unspoilt hturn h hload

theorem alone_of_stuck (runs : Bool) (hout : p.out = "") (h : Stuck p.figuresDir w w')
    (hload : Flow.load w' t.path = Flow.load w t.path) :
    AlikeTurns (p.alone runs w t) (p.alone runs w' t) ∧ (p.alone runs w' t).1.files = w' := by
  have hturn : (p.inTurn t).out = "" := hout
  rw [← figuresDir_inTurn p t] at h
  unfold alone
  exact process_of_stuck hturn h hload

theorem story_alone (hout : p.out = "") :
    (p.inTurn t).Story t.path runs w (p.alone runs w t).1.notices := by
  have hturn : (p.inTurn t).out = "" := hout
  unfold alone
  exact story_process hturn

/-! ## Passes -/

/-- What is told in a turn of a pass. -/
structure Told (p : PassSettings) (runs : Bool) (w : Workspace) (t : Turn) (ns : List Notice) :
    Prop where
  story : (p.inTurn t).Story t.path runs w ns
  alike : List.Forall₂ Notice.Alike (p.alone runs w t).1.notices ns
  eq : p.DrawsFreely runs w → ns = (p.alone runs w t).1.notices

/-- A pass adds to a session what its turns give alone. -/
structure Independent (p : PassSettings) (runs : Bool) (w : Workspace) (turns : List Turn)
    (s : Session) (after : Session × List Outcome × Option PassError) : Prop where
  notices : ∃ told : List (List Notice), after.1.notices = s.notices ++ told.flatten ∧
    List.Forall₂ (p.Told runs w) turns told
  script : after.1.script = s.script ++ String.join (turns.map fun t => (p.alone runs w t).1.script)
  outcomes : after.2.1 = turns.filterMap (fun t => (p.alone runs w t).2.1)

theorem processTurns_cons (p : PassSettings) (runs : Bool) (t : Turn) (rest : List Turn)
    (s : Session) :
    p.processTurns runs (t :: rest) s =
      ((p.processTurns runs rest (s.extend (p.alone runs s.files t).1)).1,
        (p.alone runs s.files t).2.1.toList ++
          (p.processTurns runs rest (s.extend (p.alone runs s.files t).1)).2.1,
        (p.alone runs s.files t).2.2.or
          (p.processTurns runs rest (s.extend (p.alone runs s.files t).1)).2.2) := by
  simp only [processTurns, List.map_cons, processAll, process_eq (p.inTurn t) t.path runs s, alone]

theorem Independent.cons {t : Turn} {rest : List Turn} {s : Session}
    (htold : p.Told runs w t (p.alone runs s.files t).1.notices)
    (hscript : (p.alone runs s.files t).1.script = (p.alone runs w t).1.script)
    (houtcome : (p.alone runs s.files t).2.1 = (p.alone runs w t).2.1)
    (h : p.Independent runs w rest (s.extend (p.alone runs s.files t).1)
      (p.processTurns runs rest (s.extend (p.alone runs s.files t).1))) :
    p.Independent runs w (t :: rest) s (p.processTurns runs (t :: rest) s) := by
  rw [processTurns_cons]
  obtain ⟨told, hnotices, hall⟩ := h.notices
  refine ⟨⟨_ :: told, ?_, .cons htold hall⟩, ?_, ?_⟩
  · simp [hnotices, List.append_assoc]
  · simp [h.script, hscript, String.append_assoc]
  · cases hoption : (p.alone runs w t).2.1 <;> simp [h.outcomes, houtcome, hoption]

theorem Story.congr {ns : List Notice} (h : p.Story path runs w' ns)
    (hload : Flow.load w' path = Flow.load w path) : p.Story path runs w ns := by
  cases h with
  | unloaded he => exact .unloaded (hload ▸ he)
  | compiled hf hruns => exact .compiled (hload ▸ hf) hruns
  | ran hf hruns hending => exact .ran (hload ▸ hf) hruns hending

/-- Every turn is about a file. -/
def AboutFiles (w : Workspace) (turns : List Turn) : Prop :=
  ∀ t ∈ turns, ∃ content, w.entry t.path = .ok (.file content)

/-- Turns do not affect each other once the directory for figures could not be created. -/
theorem independent_of_stuck {turns : List Turn} {s : Session} (hout : p.out = "")
    (hfiles : AboutFiles w turns) (h : Stuck p.figuresDir w s.files)
    (hfree : ¬p.DrawsFreely runs w) :
    p.Independent runs w turns s (p.processTurns runs turns s) := by
  induction turns generalizing s with
  | nil =>
    exact ⟨⟨[], by simp [processTurns, processAll], .nil⟩, by simp [processTurns, processAll], rfl⟩
  | cons t rest ih =>
    obtain ⟨⟨content, hentry⟩, hrest⟩ := List.forall_mem_cons.mp hfiles
    have hload := load_congr hentry (fun _ => Workspace.entry_of_stuck h hentry)
    obtain ⟨halike, hsame⟩ := alone_of_stuck runs hout h hload
    refine .cons ⟨(story_alone hout).congr hload, halike.notices, fun hdraws => absurd hdraws hfree⟩
      halike.script halike.outcome (ih hrest ?_)
    rw [Session.extend_files, hsame]
    exact h

/-- Turns do not affect each other, and the error of the first one that fails is the error of the
pass. -/
theorem independent_of_unspoilt (runs : Bool) {turns : List Turn} {s : Session}
    (hout : p.out = "") (hfiles : AboutFiles w turns) (h : Unspoilt p.figuresDir w s.files) :
    p.Independent runs w turns s (p.processTurns runs turns s) ∧
      (p.processTurns runs turns s).2.2 = turns.findSome? (fun t => (p.alone runs w t).2.2) := by
  induction turns generalizing s with
  | nil =>
    exact ⟨⟨⟨[], by simp [processTurns, processAll], .nil⟩, by simp [processTurns, processAll], rfl⟩,
      rfl⟩
  | cons t rest ih =>
    obtain ⟨⟨content, hentry⟩, hrest⟩ := List.forall_mem_cons.mp hfiles
    have hload := load_congr hentry (fun hpath => Workspace.entry_of_unspoilt h hpath hentry)
    obtain ⟨hnotices, hscript, hresult, hafter⟩ := alone_of_unspoilt runs hout h hload
    have htold : p.Told runs w t (p.alone runs s.files t).1.notices := by
      refine ⟨(story_alone hout).congr hload, ?_, fun _ => hnotices⟩
      rw [hnotices]
      exact Notice.Alike.forall₂_refl _
    have herror := congrArg Prod.snd (processTurns_cons p runs t rest s)
    simp only [hresult] at herror
    rw [herror, List.findSome?_cons]
    rw [← Session.extend_files s (p.alone runs s.files t).1] at hafter
    -- the directory for figures makes trouble at most once, and then this turn has failed
    rcases hafter with hfine | ⟨hstuck, hfree, hfails⟩
    · obtain ⟨hrest, hlater⟩ := ih hrest hfine
      refine ⟨.cons htold hscript (congrArg Prod.fst hresult) hrest, ?_⟩
      rw [hlater]
      cases (p.alone runs w t).2.2 <;> rfl
    · -- the turn has failed, so what comes later cannot be the first error
      refine ⟨.cons htold hscript (congrArg Prod.fst hresult)
        (independent_of_stuck hout hrest hstuck hfree), ?_⟩
      rw [hresult] at hfails
      obtain ⟨e, he⟩ := Option.ne_none_iff_exists'.mp hfails
      rw [he]
      rfl

/-- The turns of a pass over what a path stands for do not affect each other. -/
theorem independent_processTurns (p : PassSettings) {path : String} (runs : Bool)
    (turns : List Turn) (s : Session) (hout : p.out = "") (htidy : s.files.Tidy)
    (htargets : targets s.files path = .ok (turns.map Turn.path)) :
    p.Independent runs s.files turns s (p.processTurns runs turns s) ∧
      (p.processTurns runs turns s).2.2 =
        turns.findSome? (fun t => (p.alone runs s.files t).2.2) ∧
      ((∀ t ∈ turns, p.inTurn t = p) →
        p.processPath path runs s = p.processTurns runs turns s) := by
  have hfiles : AboutFiles s.files turns := fun t ht =>
    exists_entry_of_mem_targets htidy htargets (List.mem_map_of_mem ht)
  obtain ⟨hindependent, herror⟩ := independent_of_unspoilt runs hout hfiles .start
  exact ⟨hindependent, herror, processPath_eq_processTurns p htargets (.inr hout)⟩

/-- An interpreter that prints a line, whatever it is given. -/
def printing (line : String) : Interpreter :=
  { execute := fun _ => { stdout := line }
    install := fun _ => none }

/-- An interpreter that prints a figure. -/
def drawing : Interpreter :=
  printing "MATPLOTLIB_FIGURE_BASE64:QQ=="

/-- Settings under which figures belong behind a directory that is missing, where there is a file. -/
def detour : PassSettings :=
  { runner := some { interpreter := drawing, figuresDir := "x/../f" }
    clock := .ok { seconds := 0 } }

/-- The turns of two flow files. -/
def detourTurns : List Turn :=
  detour.turnsOf drawing ["flows/a.json", "flows/b.json"]

/-- Each of the two flow files fares as it would alone, though no figure can be written for either. -/
theorem independent_detour :
    detour.Independent true twoFlows detourTurns (.ofFiles twoFlows)
        (detour.processPath "flows" true (.ofFiles twoFlows)) ∧
      (detour.processPath "flows" true (.ofFiles twoFlows)).2.2 =
        detourTurns.findSome? (fun t => (detour.alone true twoFlows t).2.2) := by
  have htidy : twoFlows.Tidy := by decide +kernel
  obtain ⟨hindependent, herror, hpath⟩ :=
    detour.independent_processTurns true detourTurns (.ofFiles twoFlows) rfl htidy targets_twoFlows
  rw [Session.ofFiles_files] at hindependent herror
  rw [hpath (inTurn_of_mem_turnsOf detour rfl)]
  exact ⟨hindependent, herror⟩

/-- The reason that is told when a run has failed. -/
def reason? : Notice → Option String
  | .failed _ reason => some reason
  | _ => none

/-- The second turn is told another reason than it would be told alone: the first one has left the
missing directory behind. -/
theorem detour_tells_another_reason :
    targets twoFlows "flows" = .ok (detourTurns.map Turn.path) ∧
      (detour.processPath "flows" true (.ofFiles twoFlows)).1.notices ≠
        detourTurns.flatMap (fun t => (detour.alone true twoFlows t).1.notices) := by
  refine ⟨targets_twoFlows, fun h => ?_⟩
  have hpath : detour.processPath "flows" true (.ofFiles twoFlows) =
      detour.processTurns true detourTurns (.ofFiles twoFlows) :=
    processPath_eq_processTurns detour targets_twoFlows (.inr rfl)
      (inTurn_of_mem_turnsOf detour rfl)
  rw [hpath] at h
  have hreasons := congrArg (List.filterMap reason?) h
  revert hreasons
  decide +kernel

end PassSettings

end FlowScript
