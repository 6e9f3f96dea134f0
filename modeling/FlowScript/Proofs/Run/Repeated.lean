import FlowScript.Proofs.Run.Figures

/-!
# Runs in one workspace

Several runs write their figures into one directory. What a run says about itself does not depend on the
runs before it, with one exception: if the directory cannot be created, a first attempt may leave
directories behind, and later attempts may be told another reason.

## Main definitions

- `Unspoilt` — a workspace in which figures may have been written into their directory
- `Stuck` — a workspace in which the directory could not be created
- `RunError.Alike` — errors that agree up to the reason why the directory could not be created
- `Runner.Concluded` — how what follows an execution can end

## Main results

- `Runner.attempt_of_unspoilt`, `Runner.attempt_of_stuck` — what a run says after other runs
-/

namespace FlowScript

open Workspace (LeadsToDirectory)

variable {dir : String} {w w' : Workspace}

/-! ## Workspaces that runs leave behind -/

/-- A workspace in which figures may have been written into their directory. -/
inductive Unspoilt (dir : String) (w : Workspace) : Workspace → Prop
  | start : Unspoilt dir w w
  | drawn {p : Location} {w' : Workspace} (hmade : (w.ensureDirectories dir.toList).2 = none)
      (hp : (w.ensureDirectories dir.toList).1.LeadsToDirectory dir p)
      (h : Drawn (w.ensureDirectories dir.toList).1 p w') : Unspoilt dir w w'

/-- A workspace in which the directory for figures could not be created. -/
structure Stuck (dir : String) (w w' : Workspace) : Prop where
  wanted : dir ≠ ""
  fails : (w.ensureDirectories dir.toList).2 ≠ none
  eq : w' = (w.ensureDirectories dir.toList).1

/-- Errors that agree up to the reason why the directory for figures could not be created. -/
inductive RunError.Alike : RunError → RunError → Prop
  | refl (e : RunError) : Alike e e
  | figuresDir (e e' : FileError) : Alike (.figuresDir e) (.figuresDir e')

theorem RunError.Alike.rel_refl (e : Option RunError) : Option.Rel RunError.Alike e e := by
  cases e with
  | none => exact .none
  | some e => exact .some (.refl e)

/-- A directory that could be created is where its path leads. -/
theorem exists_leadsToDirectory (hmade : (w.ensureDirectories dir.toList).2 = none) :
    ∃ p, (w.ensureDirectories dir.toList).1.LeadsToDirectory dir p := by
  have hdir := Workspace.isDirectory_ensureDirectories hmade
  rw [String.ofList_toList] at hdir
  obtain ⟨p, hleads, hp⟩ := Workspace.isDirectory_iff.mp hdir
  exact ⟨p, hleads, hp⟩

/-- A directory that is there need not be created. -/
theorem ensureDirectories_of_leads {p : Location} (h : w.LeadsToDirectory dir p) :
    w.ensureDirectories dir.toList = (w, none) := by
  refine Workspace.ensureDirectories_of_isDirectory ?_
  rw [String.ofList_toList]
  exact Workspace.isDirectory_iff.mpr ⟨p, h.leads, h.at?_eq⟩

/-! ## Writing figures again -/

theorem writeFigures_of_fails {e : FileError} (h : (w.ensureDirectories dir.toList).2 = some e)
    (figures : List Figure) :
    writeFigures dir w figures = ((w.ensureDirectories dir.toList).1, .error (.figuresDir e)) := by
  have hpair : w.ensureDirectories dir.toList = ((w.ensureDirectories dir.toList).1, some e) :=
    Prod.ext rfl h
  unfold writeFigures
  rw [hpair]

theorem writeFigures_of_made (h : (w.ensureDirectories dir.toList).2 = none)
    (figures : List Figure) :
    writeFigures dir w figures = drawFigures dir (w.ensureDirectories dir.toList).1 figures := by
  have hpair : w.ensureDirectories dir.toList = ((w.ensureDirectories dir.toList).1, none) :=
    Prod.ext rfl h
  unfold writeFigures
  rw [hpair]

/-- Writing figures keeps a workspace tidy. -/
theorem tidy_writeFigures (dir : String) (h : w.Tidy) (figures : List Figure) :
    (writeFigures dir w figures).1.Tidy := by
  have hmade := h.ensureDirectories dir.toList
  cases hfails : (w.ensureDirectories dir.toList).2 with
  | none =>
    rw [writeFigures_of_made hfails]
    exact hmade.drawFigures dir figures
  | some e =>
    rw [writeFigures_of_fails hfails]
    exact hmade

/-- Figures are written again as they were written before. -/
theorem writeFigures_of_unspoilt (hdir : dir ≠ "") (h : Unspoilt dir w w')
    (figures : List Figure) :
    (writeFigures dir w' figures).2 = (writeFigures dir w figures).2 ∧
      (Unspoilt dir w (writeFigures dir w' figures).1 ∨
        Stuck dir w (writeFigures dir w' figures).1 ∧
          ∃ e, (writeFigures dir w' figures).2 = .error e) := by
  cases h with
  | start =>
    refine ⟨rfl, ?_⟩
    cases hmade : (w.ensureDirectories dir.toList).2 with
    | none =>
      obtain ⟨p, hp⟩ := exists_leadsToDirectory hmade
      rw [writeFigures_of_made hmade]
      exact .inl (.drawn hmade hp (drawn_drawFigures hp figures))
    | some e =>
      rw [writeFigures_of_fails hmade]
      exact .inr ⟨⟨hdir, by simp [hmade], rfl⟩, _, rfl⟩
  | drawn hmade hp hdrawn =>
    -- the directory is there, so that a second attempt starts with writing figures at once
    have hp' := hp.mono hdrawn.directories.keepsDirectories
    have hthere := ensureDirectories_of_leads hp'
    rw [writeFigures_of_made hmade, writeFigures_of_made (congrArg Prod.snd hthere), hthere]
    refine ⟨(drawFigures_congr hp hdrawn.directories figures).symm, ?_⟩
    exact .inl (.drawn hmade hp (hdrawn.trans (drawn_drawFigures hp' figures)))

/-- Where the directory could not be created it cannot be created again. -/
theorem writeFigures_of_stuck (h : Stuck dir w w') (figures : List Figure) :
    ∃ e e', (writeFigures dir w figures).2 = .error (.figuresDir e) ∧
      writeFigures dir w' figures = (w', .error (.figuresDir e')) := by
  obtain ⟨-, hfails, rfl⟩ := h
  obtain ⟨hsame, hagain⟩ := Workspace.ensureDirectories_again hfails
  obtain ⟨e, he⟩ := Option.ne_none_iff_exists'.mp hfails
  obtain ⟨e', he'⟩ := Option.ne_none_iff_exists'.mp hagain
  refine ⟨e, e', by rw [writeFigures_of_fails he], ?_⟩
  rw [writeFigures_of_fails he', hsame]

/-! ## What follows an execution -/

namespace Runner

variable (r : Runner) (packages : List String) (done : Execution)

/-- Apart from writing figures, what follows an execution does not look at files. -/
theorem conclude_congr
    (h : r.figuresDir ≠ "" → ∀ figures, (writeFigures r.figuresDir w' figures).2 =
      (writeFigures r.figuresDir w figures).2) :
    (r.conclude packages done w').1 = (r.conclude packages done w).1 ∧
      (r.conclude packages done w').2.1 = (r.conclude packages done w).2.1 := by
  unfold conclude
  split
  · exact ⟨rfl, rfl⟩
  case h_2 output houtput =>
    dsimp only
    split
    · exact ⟨rfl, rfl⟩
    case isFalse hwrites =>
      obtain ⟨hdir, -⟩ := not_or.mp (Bool.or_eq_true_iff.not.mp hwrites)
      have hsame := h (by simpa using hdir) output.figures
      generalize writeFigures r.figuresDir w output.figures = a at hsame ⊢
      generalize writeFigures r.figuresDir w' output.figures = a' at hsame ⊢
      obtain ⟨v, written⟩ := a
      obtain ⟨v', written'⟩ := a'
      obtain rfl : written' = written := hsame
      cases written' <;> exact ⟨rfl, rfl⟩

/-- How what follows an execution can end. -/
inductive Concluded (r : Runner) (packages : List String) (done : Execution) (w : Workspace) :
    Option Run × Option RunError × Workspace → Prop
  /-- The output cannot be read. -/
  | unread (h : Output.ofText? done.stdout = none) :
      Concluded r packages done w (none, some .lineTooLong, w)
  /-- There are no figures to write. -/
  | plain {output : Output} (h : Output.ofText? done.stdout = some output)
      (hnone : r.figuresDir = "" ∨ output.figures = []) :
      Concluded r packages done w
        (some { packages, output, stderr := done.stderr }, done.failure.map .script, w)
  /-- The figures cannot be written. -/
  | undrawn {output : Output} {v : Workspace} {e : RunError}
      (h : Output.ofText? done.stdout = some output) (hdir : r.figuresDir ≠ "")
      (hwrite : writeFigures r.figuresDir w output.figures = (v, .error e)) :
      Concluded r packages done w
        (some { packages, output, stderr := done.stderr }, some e, v)
  /-- The figures are written. -/
  | drawn {output : Output} {v : Workspace} {files : List String}
      (h : Output.ofText? done.stdout = some output) (hdir : r.figuresDir ≠ "")
      (hwrite : writeFigures r.figuresDir w output.figures = (v, .ok files)) :
      Concluded r packages done w
        (some { packages, output, stderr := done.stderr, files }, done.failure.map .script, v)

theorem concluded_conclude (w : Workspace) :
    Concluded r packages done w (r.conclude packages done w) := by
  unfold conclude
  split
  case h_1 houtput => exact .unread houtput
  case h_2 output houtput =>
    dsimp only
    split
    case isTrue hnone => exact .plain houtput (by simpa using hnone)
    case isFalse hwrites =>
      obtain ⟨hdir, -⟩ := not_or.mp (Bool.or_eq_true_iff.not.mp hwrites)
      split
      case h_1 hwrite => exact .undrawn houtput (by simpa using hdir) hwrite
      case h_2 hwrite => exact .drawn houtput (by simpa using hdir) hwrite

/-- Only writing figures changes files, and if it fails the run fails. -/
theorem conclude_files (w : Workspace) :
    (r.conclude packages done w).2.2 = w ∨ r.figuresDir ≠ "" ∧
      ∃ figures, (r.conclude packages done w).2.2 = (writeFigures r.figuresDir w figures).1 ∧
        ∀ e, (writeFigures r.figuresDir w figures).2 = .error e →
          (r.conclude packages done w).2.1 = some e := by
  have h := r.concluded_conclude packages done w
  generalize r.conclude packages done w = c at h
  cases h with
  | unread => exact .inl rfl
  | plain => exact .inl rfl
  | @undrawn output v e houtput hdir hwrite =>
    refine .inr ⟨hdir, output.figures, ?_⟩
    rw [hwrite]
    exact ⟨rfl, fun e' he => congrArg some (Except.error.inj he)⟩
  | @drawn output v files houtput hdir hwrite =>
    refine .inr ⟨hdir, output.figures, ?_⟩
    rw [hwrite]
    exact ⟨rfl, fun e' he => by cases he⟩

theorem conclude_of_unspoilt (h : Unspoilt r.figuresDir w w') :
    (r.conclude packages done w').1 = (r.conclude packages done w).1 ∧
      (r.conclude packages done w').2.1 = (r.conclude packages done w).2.1 ∧
      (Unspoilt r.figuresDir w (r.conclude packages done w').2.2 ∨
        Stuck r.figuresDir w (r.conclude packages done w').2.2 ∧
          (r.conclude packages done w').2.1 ≠ none) := by
  obtain ⟨hrun, herror⟩ :=
    r.conclude_congr packages done
      (fun hdir figures => (writeFigures_of_unspoilt hdir h figures).1)
  refine ⟨hrun, herror, ?_⟩
  rcases r.conclude_files packages done w' with hfiles | ⟨hdir, figures, hfiles, hfails⟩
  · rw [hfiles]
    exact .inl h
  · rw [hfiles]
    refine (writeFigures_of_unspoilt hdir h figures).2.imp id (fun hstuck => ⟨hstuck.1, ?_⟩)
    obtain ⟨e, he⟩ := hstuck.2
    simp [hfails e he]

theorem conclude_of_stuck (h : Stuck r.figuresDir w w') :
    (r.conclude packages done w').1 = (r.conclude packages done w).1 ∧
      Option.Rel RunError.Alike (r.conclude packages done w).2.1
        (r.conclude packages done w').2.1 ∧
      (r.conclude packages done w').2.2 = w' := by
  unfold conclude
  split
  · exact ⟨rfl, RunError.Alike.rel_refl _, rfl⟩
  case h_2 output houtput =>
    dsimp only
    split
    · exact ⟨rfl, RunError.Alike.rel_refl _, rfl⟩
    · obtain ⟨e, e', he, he'⟩ := writeFigures_of_stuck h output.figures
      rw [he']
      generalize writeFigures r.figuresDir w output.figures = a at he ⊢
      obtain ⟨v, written⟩ := a
      obtain rfl : written = .error (.figuresDir e) := he
      exact ⟨rfl, .some (.figuresDir e e'), rfl⟩

/-! ## Attempts -/

/-- An attempt looks at files at its end only, if it gets that far. -/
theorem attempt_eq (script : String) (imports : List String) :
    (∃ a : Attempt, a.run = none ∧ a.error ≠ none ∧
      ∀ w, r.attempt script imports w = { a with files := w }) ∨
      ∃ installed packages done, ∀ w, r.attempt script imports w =
        { installed, executed := true, run := (r.conclude packages done w).1
          error := (r.conclude packages done w).2.1
          files := (r.conclude packages done w).2.2 } := by
  unfold attempt
  split
  · exact .inl ⟨{ error := some .noScript, files := {} }, rfl, by simp, fun _ => rfl⟩
  · dsimp only
    split
    case h_1 reason hrefused =>
      exact .inl ⟨{ installed := _, error := some (.install reason), files := {} }, rfl, by simp,
        fun _ => rfl⟩
    case h_2 => exact .inr ⟨_, _, _, fun _ => rfl⟩

variable (script : String) (imports : List String)

/-- An attempt gives nothing and says why, or it ends as what follows an execution does. -/
theorem concluded_attempt (w : Workspace) :
    ((r.attempt script imports w).run = none ∧ (r.attempt script imports w).error ≠ none ∧
      (r.attempt script imports w).files = w) ∨
    ∃ packages done c, Concluded r packages done w c ∧ (r.attempt script imports w).run = c.1 ∧
      (r.attempt script imports w).error = c.2.1 ∧ (r.attempt script imports w).files = c.2.2 := by
  rcases r.attempt_eq script imports with ⟨a, hrun, herror, ha⟩ | ⟨installed, packages, done, ha⟩
  · rw [ha]
    exact .inl ⟨hrun, herror, rfl⟩
  · rw [ha]
    exact .inr ⟨packages, done, _, r.concluded_conclude packages done w, rfl, rfl, rfl⟩

/-- An attempt that gives no result says why. -/
theorem error_of_attempt (h : (r.attempt script imports w).run = none) :
    (r.attempt script imports w).error ≠ none := by
  rcases r.concluded_attempt script imports w with
    ⟨-, herror, -⟩ | ⟨packages, done, c, hconcluded, hrun, herror, -⟩
  · exact herror
  · rw [hrun] at h
    rw [herror]
    cases hconcluded with
    | unread => exact Option.some_ne_none _
    | plain => cases h
    | undrawn => cases h
    | drawn => cases h

/-- An attempt keeps a workspace tidy. -/
theorem tidy_attempt (h : w.Tidy) : (r.attempt script imports w).files.Tidy := by
  rcases r.concluded_attempt script imports w with
    ⟨-, -, hfiles⟩ | ⟨packages, done, c, hconcluded, -, -, hfiles⟩
  · rw [hfiles]
    exact h
  · rw [hfiles]
    have hwritten : ∀ figures v result, writeFigures r.figuresDir w figures = (v, result) →
        v.Tidy := by
      intro figures v result hwrite
      have htidy := tidy_writeFigures r.figuresDir h figures
      rwa [hwrite] at htidy
    cases hconcluded with
    | unread => exact h
    | plain => exact h
    | undrawn _ _ hwrite => exact hwritten _ _ _ hwrite
    | drawn _ _ hwrite => exact hwritten _ _ _ hwrite

/-- A run after other runs says what it would say alone. -/
theorem attempt_of_unspoilt (h : Unspoilt r.figuresDir w w') :
    (r.attempt script imports w').run = (r.attempt script imports w).run ∧
      (r.attempt script imports w').error = (r.attempt script imports w).error ∧
      (Unspoilt r.figuresDir w (r.attempt script imports w').files ∨
        Stuck r.figuresDir w (r.attempt script imports w').files ∧
          (r.attempt script imports w').error ≠ none) := by
  rcases r.attempt_eq script imports with ⟨a, -, -, ha⟩ | ⟨installed, packages, done, ha⟩
  · rw [ha, ha]
    exact ⟨rfl, rfl, .inl h⟩
  · rw [ha, ha]
    exact r.conclude_of_unspoilt packages done h

/-- A run after one that could not create the directory only differs in the reason for that. -/
theorem attempt_of_stuck (h : Stuck r.figuresDir w w') :
    (r.attempt script imports w').run = (r.attempt script imports w).run ∧
      Option.Rel RunError.Alike (r.attempt script imports w).error
        (r.attempt script imports w').error ∧
      (r.attempt script imports w').files = w' := by
  rcases r.attempt_eq script imports with ⟨a, -, -, ha⟩ | ⟨installed, packages, done, ha⟩
  · rw [ha, ha]
    exact ⟨rfl, RunError.Alike.rel_refl _, rfl⟩
  · rw [ha, ha]
    exact r.conclude_of_stuck packages done h

end Runner

end FlowScript
