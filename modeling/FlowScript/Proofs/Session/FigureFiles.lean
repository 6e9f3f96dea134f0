import FlowScript.Proofs.Session.Independence

/-!
# Figures of several flows

The file of a figure is named by its number within one run, and all runs of a pass write into one
directory. So a run overwrites the figures of the runs before it, as far as it has as many; what a file
holds at the end is the image that was printed last under its number. Where all figures of a run could
be written, any run can write that many, since directories do not change any more.

## Main definitions

- `lastImage` — the image that was printed last under a number
- `PassSettings.Kept` — the files that an outcome lists hold its own figures
- `Writable` — the figures up to a number can be written

## Main results

- `PassSettings.at?_processTurns` — what a pass makes of the file of a figure
- `PassSettings.shown_processTurns` — what the listed files hold after a pass
- `PassSettings.kept_iff_last` — the listed files hold their own figures if these were printed last
-/

namespace FlowScript

open Workspace (LeadsToDirectory)

/-! ## Images under a number -/

/-- The image that stands last under a number. -/
def imageAt (figures : List Figure) (n : Nat) : Option (List UInt8) :=
  (figures.reverse.find? (fun f => f.index == n)).map Figure.image

/-- The figures that a run has printed, if there was one. -/
def printed (run : Option Run) : List Figure :=
  run.elim [] (fun r => r.output.figures)

/-- The image that was printed last under a number. -/
def lastImage (outcomes : List Outcome) (n : Nat) : Option (List UInt8) :=
  imageAt (outcomes.flatMap (fun o => printed o.run)) n

theorem imageAt_append (figures more : List Figure) (n : Nat) :
    imageAt (figures ++ more) n = (imageAt more n).or (imageAt figures n) := by
  simp [imageAt, List.find?_append, Option.map_or]

theorem imageAt_of_not_mem {figures : List Figure} {n : Nat}
    (h : n ∉ figures.map Figure.index) : imageAt figures n = none := by
  rw [imageAt, Option.map_eq_none_iff, List.find?_eq_none]
  intro f hf heq
  exact h (List.mem_map.mpr ⟨f, List.mem_reverse.mp hf, by simpa using heq⟩)

/-- Numbered figures have different numbers. -/
theorem Numbered.imageAt_of_mem {figures : List Figure} (h : Numbered figures) {f : Figure}
    (hf : f ∈ figures) : imageAt figures f.index = some f.image := by
  have hnodup : (figures.map Figure.index).Nodup := h ▸ List.nodup_range'
  cases hfind : figures.reverse.find? (fun g => g.index == f.index) with
  | none =>
    have hnone := List.find?_eq_none.mp hfind f (List.mem_reverse.mpr hf)
    exact absurd (beq_self_eq_true f.index) hnone
  | some g =>
    have hg := List.mem_reverse.mp (List.mem_of_find?_eq_some hfind)
    have heq : g.index = f.index := by simpa using List.find?_some hfind
    rw [imageAt, hfind, Option.map_some, List.inj_on_of_nodup_map hnodup hg hf heq]

theorem lastImage_append (outcomes more : List Outcome) (n : Nat) :
    lastImage (outcomes ++ more) n = (lastImage more n).or (lastImage outcomes n) := by
  rw [lastImage, List.flatMap_append, imageAt_append]
  rfl

theorem lastImage_toList (outcome : Option Outcome) (n : Nat) :
    lastImage outcome.toList n = imageAt (printed (outcome.bind Outcome.run)) n := by
  cases outcome with
  | none => rfl
  | some o => simp [lastImage]

/-! ## Files of figures -/

variable {w w' : Workspace} {dir : String} {q : Location} {n : Nat}

/-- A path leads to a directory, in which the figures up to a number can be written. -/
structure Writable (dir : String) (q : Location) (n : Nat) (w : Workspace) : Prop where
  leads : w.LeadsToDirectory dir q
  free : ∀ k, 1 ≤ k → k ≤ n → figureFault? w q k = none

theorem Writable.mono (h : Writable dir q n w) (hsame : w.SameDirectories w') :
    Writable dir q n w' :=
  ⟨h.leads.mono hsame.keepsDirectories,
    fun k hone hk => (figureFault?_congr hsame).symm.trans (h.free k hone hk)⟩

/-- What writing figures makes of the file of a figure. -/
theorem Writable.at?_drawFigures (h : Writable dir q n w) {figures : List Figure}
    (hnumbered : Numbered figures) :
    (drawFigures dir w figures).1.at? (q ++ [figureName n]) =
      ((imageAt figures n).map Entry.file).or (w.at? (q ++ [figureName n])) := by
  by_cases hn : n ∈ figures.map Figure.index
  · obtain ⟨f, hf, rfl⟩ := List.mem_map.mp hn
    rw [FlowScript.at?_drawFigures h.leads hnumbered.sorted hf, hnumbered.imageAt_of_mem hf]
    · rfl
    · intro g hg hle
      exact h.free g.index (hnumbered.mem_map_index.mp (List.mem_map_of_mem hg)).1 hle
  · rw [at?_drawFigures_of_not_mem h.leads hn, imageAt_of_not_mem hn]
    rfl

/-- The file of a figure can be read. -/
theorem Writable.read (h : Writable dir q n w) (hn : 1 ≤ n) {image : List UInt8}
    (hfile : w.at? (q ++ [figureName n]) = some (.file image)) :
    w.read (figurePath dir n) = .ok image := by
  obtain ⟨hsize, -⟩ := figureFault?_eq_none_iff.mp (h.free n hn (Nat.le_refl n))
  have hleads := h.leads.leads.join h.leads.at?_eq (isName_figureName n) hsize
  rw [Workspace.read, figurePath, Workspace.entry_eq_ok_iff.mpr ⟨_, hleads, hfile⟩]

/-! ## Attempts -/

namespace Runner

variable (r : Runner) (script : String) (imports : List String)

/-- An attempt writes the figures it has printed, where the directory is there. -/
theorem files_attempt_of_leads (hdir : r.figuresDir ≠ "") (h : w.LeadsToDirectory r.figuresDir q) :
    Numbered (printed (r.attempt script imports w).run) ∧
      (r.attempt script imports w).files =
        (drawFigures r.figuresDir w (printed (r.attempt script imports w).run)).1 := by
  have hthere := ensureDirectories_of_leads h
  have hwrites : ∀ figures, writeFigures r.figuresDir w figures =
      drawFigures r.figuresDir w figures := by
    intro figures
    rw [writeFigures_of_made (congrArg Prod.snd hthere), hthere]
  rcases r.concluded_attempt script imports w with
    ⟨hrun, -, hfiles⟩ | ⟨packages, done, c, hconcluded, hrun, -, hfiles⟩
  · rw [hrun, hfiles]
    exact ⟨rfl, rfl⟩
  · rw [hrun, hfiles]
    cases hconcluded with
    | unread => exact ⟨rfl, rfl⟩
    | plain houtput hnone =>
      have hfigures := hnone.resolve_left hdir
      refine ⟨numbered_figures houtput, ?_⟩
      simp only [printed, Option.elim_some, hfigures, drawFigures]
    | undrawn houtput hdir hwrite =>
      rw [hwrites] at hwrite
      exact ⟨numbered_figures houtput, (congrArg Prod.fst hwrite).symm⟩
    | drawn houtput hdir hwrite =>
      rw [hwrites] at hwrite
      exact ⟨numbered_figures houtput, (congrArg Prod.fst hwrite).symm⟩

/-- A run that lists files has written all its figures into a directory. -/
structure Listed (dir : String) (run : Run) (w : Workspace) : Prop where
  wanted : dir ≠ ""
  numbered : Numbered run.output.figures
  drawn : ∃ q v, v.LeadsToDirectory dir q ∧
    drawFigures dir v run.output.figures = (w, .ok run.files)

theorem listed_attempt {run : Run} (hrun : (r.attempt script imports w).run = some run)
    (hfiles : run.files ≠ []) : Listed r.figuresDir run (r.attempt script imports w).files := by
  rcases r.concluded_attempt script imports w with
    ⟨hnone, -, -⟩ | ⟨packages, done, c, hconcluded, hresult, -, hafter⟩
  · rw [hnone] at hrun
    cases hrun
  · rw [hresult] at hrun
    rw [hafter]
    cases hconcluded with
    | unread => cases hrun
    | plain =>
      obtain rfl := Option.some.inj hrun
      exact absurd rfl hfiles
    | undrawn =>
      obtain rfl := Option.some.inj hrun
      exact absurd rfl hfiles
    | drawn houtput hdir hwrite =>
      obtain rfl := Option.some.inj hrun
      refine ⟨hdir, numbered_figures houtput, ?_⟩
      cases hmade : (w.ensureDirectories r.figuresDir.toList).2 with
      | none =>
        obtain ⟨q, hq⟩ := exists_leadsToDirectory hmade
        rw [writeFigures_of_made hmade] at hwrite
        exact ⟨q, _, hq, hwrite⟩
      | some e =>
        rw [writeFigures_of_fails hmade] at hwrite
        cases hwrite

/-- The files that a run lists are those of its figures, and they hold them. -/
theorem Listed.spec {run : Run} (h : Listed dir run w) :
    run.files = run.output.figures.map (fun f => figurePath dir f.index) ∧
      ∃ q, ∀ f ∈ run.output.figures, Writable dir q f.index w ∧
        w.at? (q ++ [figureName f.index]) = some (.file f.image) := by
  obtain ⟨q, v, hleads, hdraw⟩ := h.drawn
  obtain ⟨hfiles, hfree⟩ := of_drawFigures_eq_ok hleads (congrArg Prod.snd hdraw)
  refine ⟨hfiles, q, fun f hf => ?_⟩
  have hwritable : Writable dir q f.index v := by
    -- every number up to this one is that of a figure, since they are numbered from one
    refine ⟨hleads, fun k hone hk => ?_⟩
    have hlast := (h.numbered.mem_map_index.mp (List.mem_map_of_mem hf)).2
    obtain ⟨g, hg, rfl⟩ := List.mem_map.mp
      (h.numbered.mem_map_index.mpr ⟨hone, Nat.le_trans hk hlast⟩)
    exact hfree g hg
  have hdirectories := (drawn_drawFigures hleads run.output.figures).directories
  have hfile := hwritable.at?_drawFigures h.numbered
  rw [hdraw] at hdirectories hfile
  rw [h.numbered.imageAt_of_mem hf] at hfile
  exact ⟨hwritable.mono hdirectories, hfile⟩

end Runner

/-! ## Turns -/

namespace PassSettings

variable {p : PassSettings} {runs : Bool} {s : Session}
variable {w : Workspace} {q : Location} {n : Nat} {t : Turn}

theorem attempted_alone (p : PassSettings) (runs : Bool) (w : Workspace) (t : Turn) :
    Attempted (p.inTurn t) w (p.alone runs w t) :=
  attempted_process (p.inTurn t) t.path runs (.ofFiles w)

theorem figuresDir_eq {runner : Runner} (h : (p.inTurn t).runner = some runner) :
    runner.figuresDir = p.figuresDir := by
  rw [← figuresDir_inTurn p t, figuresDir, h]
  rfl

/-- A turn whose outcome lists files has written its figures. -/
theorem listed_alone {o : Outcome} (ho : (p.alone runs w t).2.1 = some o) {run : Run}
    (hrun : o.run = some run) (hlists : run.files ≠ []) :
    Runner.Listed p.figuresDir run (p.alone runs w t).1.files := by
  have hbind : (p.alone runs w t).2.1.bind Outcome.run = some run := by
    rw [ho, Option.bind_some, hrun]
  cases p.attempted_alone runs w t with
  | not hfiles hnone =>
    rw [hnone] at hbind
    cases hbind
  | once hrunner script imports v hv hfiles hattempt =>
    rw [hattempt] at hbind
    rw [hfiles, ← figuresDir_eq hrunner]
    exact Runner.listed_attempt _ script imports hbind hlists

/-- What a turn makes of the file of a figure. -/
theorem at?_alone (hout : p.out = "") (hdir : p.figuresDir ≠ "")
    (h : Writable p.figuresDir q n w) :
    Writable p.figuresDir q n (p.alone runs w t).1.files ∧
      (p.alone runs w t).1.files.at? (q ++ [figureName n]) =
        ((lastImage (p.alone runs w t).2.1.toList n).map Entry.file).or
          (w.at? (q ++ [figureName n])) := by
  rw [lastImage_toList]
  cases p.attempted_alone runs w t with
  | not hfiles hrun =>
    rw [hfiles.eq hout, hrun]
    exact ⟨h, rfl⟩
  | once hrunner script imports v hv hfiles hrun =>
    obtain rfl := hv.eq hout
    have heq := figuresDir_eq hrunner
    rw [← heq] at hdir h ⊢
    obtain ⟨hnumbered, hdrawn⟩ := Runner.files_attempt_of_leads _ script imports hdir h.leads
    rw [hfiles, hrun, hdrawn]
    exact ⟨h.mono (drawn_drawFigures h.leads _).directories, h.at?_drawFigures hnumbered⟩

/-- What a pass makes of the file of a figure. -/
theorem at?_processTurns (runs : Bool) {turns : List Turn} {s : Session}
    (hfits : turns = [] ∨ p.out = "") (hdir : p.figuresDir ≠ "")
    (h : Writable p.figuresDir q n s.files) :
    Writable p.figuresDir q n (p.processTurns runs turns s).1.files ∧
      (p.processTurns runs turns s).1.files.at? (q ++ [figureName n]) =
        ((lastImage (p.processTurns runs turns s).2.1 n).map Entry.file).or
          (s.files.at? (q ++ [figureName n])) := by
  induction turns generalizing s with
  | nil => exact ⟨h, rfl⟩
  | cons t rest ih =>
    have hout := hfits.resolve_left (List.cons_ne_nil t rest)
    obtain ⟨hwritable, hfile⟩ := at?_alone (t := t) hout hdir h
    rw [← Session.extend_files s] at hwritable hfile
    obtain ⟨hwritable, hlater⟩ := ih (.inr hout) hwritable
    rw [processTurns_cons]
    dsimp only
    refine ⟨hwritable, ?_⟩
    rw [hlater, hfile, lastImage_append, Option.map_or, Option.or_assoc]

/-- What is known of the files that an outcome lists. -/
def Shown (dir : String) (w : Workspace) (outcomes : List Outcome) (o : Outcome) : Prop :=
  ∀ run ∈ o.run, run.files ≠ [] → Numbered run.output.figures ∧
    run.files = run.output.figures.map (fun f => figurePath dir f.index) ∧
    ∀ f ∈ run.output.figures, ∃ image, lastImage outcomes f.index = some image ∧
      w.read (figurePath dir f.index) = .ok image

/-- A file that is listed holds the image that was printed last under its number. -/
theorem shown_processTurns {turns : List Turn} {s : Session}
    (hfits : turns.length ≤ 1 ∨ p.out = "") :
    ∀ o ∈ (p.processTurns runs turns s).2.1,
      Shown p.figuresDir (p.processTurns runs turns s).1.files
        (p.processTurns runs turns s).2.1 o := by
  induction turns generalizing s with
  | nil => exact fun o ho => absurd ho List.not_mem_nil
  | cons t rest ih =>
    have hrest : rest = [] ∨ p.out = "" := hfits.imp_left (fun hfew => by simpa using hfew)
    have hfits : rest.length ≤ 1 ∨ p.out = "" := hrest.imp_left (fun hnil => by simp [hnil])
    rw [processTurns_cons]
    intro o ho run hrun hlists
    rcases List.mem_append.mp ho with hfirst | hlater
    · have ho := Option.mem_toList.mp hfirst
      have hlisted := listed_alone ho hrun hlists
      obtain ⟨hfiles, q, hspec⟩ := hlisted.spec
      refine ⟨hlisted.numbered, hfiles, fun f hf => ?_⟩
      obtain ⟨hwritable, hfile⟩ := hspec f hf
      have hown : lastImage (p.alone runs s.files t).2.1.toList f.index = some f.image := by
        rw [lastImage_toList, ho, Option.bind_some, hrun]
        exact hlisted.numbered.imageAt_of_mem hf
      -- what the turn wrote is what the later turns find
      rw [← Session.extend_files s] at hwritable hfile
      obtain ⟨hwritable, hafter⟩ := at?_processTurns runs hrest hlisted.wanted hwritable
      rw [hfile, ← Option.map_some (f := Entry.file), ← hown, ← Option.map_or,
        ← lastImage_append] at hafter
      obtain ⟨image, himage⟩ : ∃ image, lastImage ((p.alone runs s.files t).2.1.toList ++
          (p.processTurns runs rest (s.extend (p.alone runs s.files t).1)).2.1) f.index =
            some image := by
        rw [lastImage_append, hown, ← Option.isSome_iff_exists]
        simp
      have hone := (hlisted.numbered.mem_map_index.mp (List.mem_map_of_mem hf)).1
      refine ⟨image, himage, hwritable.read hone ?_⟩
      rw [hafter, himage, Option.map_some]
    · obtain ⟨hnumbered, hfiles, hread⟩ := ih hfits o hlater run hrun hlists
      refine ⟨hnumbered, hfiles, fun f hf => ?_⟩
      obtain ⟨image, himage, hfile⟩ := hread f hf
      exact ⟨image, by rw [lastImage_append, himage, Option.some_or], hfile⟩

/-- The files that an outcome lists are those of its figures, and they hold them. -/
def Kept (dir : String) (w : Workspace) (o : Outcome) : Prop :=
  ∀ run ∈ o.run, run.files = [] ∨
    run.files = run.output.figures.map (fun f => figurePath dir f.index) ∧
      ∀ f ∈ run.output.figures, w.read (figurePath dir f.index) = .ok f.image

/-- The figures of an outcome that lists files are the last ones under their numbers. -/
def PrintedLast (outcomes : List Outcome) (o : Outcome) : Prop :=
  ∀ run ∈ o.run, run.files = [] ∨
    ∀ f ∈ run.output.figures, lastImage outcomes f.index = some f.image

theorem Shown.kept_iff {dir : String} {outcomes : List Outcome} {o : Outcome}
    (h : Shown dir w outcomes o) : Kept dir w o ↔ PrintedLast outcomes o := by
  unfold Kept PrintedLast
  refine forall₂_congr (fun run hrun => or_congr_right' fun hlists => ?_)
  obtain ⟨-, hfiles, hread⟩ := h run hrun hlists
  rw [and_iff_right hfiles]
  refine forall₂_congr (fun f hf => ?_)
  obtain ⟨image, himage, hfile⟩ := hread f hf
  rw [himage, hfile, Except.ok.injEq, Option.some.injEq]

/-- The figures of a single turn are the last ones under their numbers. -/
theorem printedLast_of_single {turns : List Turn} (hfew : turns.length ≤ 1) :
    ∀ o ∈ (p.processTurns runs turns s).2.1, PrintedLast (p.processTurns runs turns s).2.1 o := by
  rcases turns with - | ⟨t, - | ⟨_, _⟩⟩
  · exact fun o ho => absurd ho List.not_mem_nil
  · have houtcomes : (p.processTurns runs [t] s).2.1 = (p.alone runs s.files t).2.1.toList := by
      rw [processTurns_cons]
      exact List.append_nil _
    rw [houtcomes]
    intro o ho run hrun
    have ho := Option.mem_toList.mp ho
    refine or_iff_not_imp_left.mpr (fun hlists f hf => ?_)
    rw [lastImage_toList, ho, Option.bind_some, hrun]
    exact (listed_alone ho hrun hlists).numbered.imageAt_of_mem hf
  · simp at hfew

/-- Every outcome of a pass keeps the figures it lists exactly if they were printed last; this is so if
there is one flow only. Several flows whose scripts belong into one file are not taken at all. -/
theorem kept_iff_last (p : PassSettings) {path : String} (runs : Bool) (turns : List Turn)
    (s : Session) (htargets : targets s.files path = .ok (turns.map Turn.path)) :
    ((turns.length ≤ 1 ∨ p.out = "") →
      ((∀ o ∈ (p.processTurns runs turns s).2.1,
          Kept p.figuresDir (p.processTurns runs turns s).1.files o) ↔
        ∀ o ∈ (p.processTurns runs turns s).2.1,
          PrintedLast (p.processTurns runs turns s).2.1 o) ∧
      (turns.length ≤ 1 → ∀ o ∈ (p.processTurns runs turns s).2.1,
        PrintedLast (p.processTurns runs turns s).2.1 o) ∧
      ((∀ t ∈ turns, p.inTurn t = p) →
        p.processPath path runs s = p.processTurns runs turns s)) ∧
    (1 < turns.length → p.out ≠ "" →
      p.processPath path runs s = (s, [], some (.crowded turns.length p.out))) := by
  refine ⟨fun hfits => ⟨?_, printedLast_of_single, processPath_eq_processTurns p htargets hfits⟩,
    processPath_of_crowded p htargets⟩
  exact forall₂_congr (fun o ho => (shown_processTurns hfits o ho).kept_iff)

/-- Settings under which figures are wanted. -/
def collecting : PassSettings :=
  { runner := some { interpreter := drawing, figuresDir := "figs" }
    clock := .ok { seconds := 0 } }

/-- Turns of two flow files with the same figure. -/
def collectingTurns : List Turn :=
  collecting.turnsOf drawing ["flows/a.json", "flows/b.json"]

instance (outcomes : List Outcome) (o : Outcome) : Decidable (PrintedLast outcomes o) :=
  inferInstanceAs (Decidable (∀ run ∈ o.run, _ ∨ _))

/-- Both runs print the same figure, so both keep it. -/
theorem kept_collecting :
    (collecting.processPath "flows" true (.ofFiles twoFlows)).2.1.length = 2 ∧
      ∀ o ∈ (collecting.processPath "flows" true (.ofFiles twoFlows)).2.1,
        Kept "figs" (collecting.processPath "flows" true (.ofFiles twoFlows)).1.files o := by
  obtain ⟨hkept, -, hpath⟩ := (collecting.kept_iff_last true collectingTurns (.ofFiles twoFlows)
    targets_twoFlows).1 (.inr rfl)
  rw [hpath (inTurn_of_mem_turnsOf collecting rfl)]
  exact ⟨by decide +kernel, hkept.mpr (by decide +kernel)⟩

/-- Turns of two flow files with different figures. -/
def rivalTurns : List Turn :=
  [⟨"flows/a.json", collecting.clock, printing "MATPLOTLIB_FIGURE_BASE64:QQ=="⟩,
    ⟨"flows/b.json", collecting.clock, printing "MATPLOTLIB_FIGURE_BASE64:Qg=="⟩]

deriving instance DecidableEq for FileError

instance (dir : String) (w : Workspace) (o : Outcome) : Decidable (Kept dir w o) :=
  inferInstanceAs (Decidable (∀ run ∈ o.run, _ ∨ _))

/-- The second run overwrites the figure of the first one. -/
theorem second_figure_overwrites :
    targets twoFlows "flows" = .ok (rivalTurns.map Turn.path) ∧
      ¬∀ o ∈ (collecting.processTurns true rivalTurns (.ofFiles twoFlows)).2.1,
        Kept "figs" (collecting.processTurns true rivalTurns (.ofFiles twoFlows)).1.files o :=
  ⟨targets_twoFlows, by decide +kernel⟩

end PassSettings

end FlowScript
