import FlowScript.Proofs.Script.Names
import FlowScript.Proofs.Workspace.Tidy
import FlowScript.Run.Runner

/-!
# Figures as files

The figures of a run are numbered from one, and the file of a figure is named by its number alone.
Whether a figure can be written depends on the directories of a workspace only, and writing figures
changes none of them. So figures that could be written can be written again, over what is there.

## Main definitions

- `Workspace.SameDirectories` — the directories are the same
- `figureFault?` — why a figure cannot be written
- `Drawn` — figures may have been written into a directory, and nothing else has changed
- `Numbered` — figures are numbered from one

## Main results

- `drawn_drawFigures` — writing figures changes their files only
- `drawFigures_congr` — what can be written depends on the directories only
- `at?_drawFigures` — a figure is in its file if those up to it can be written
- `numbered_figures` — the figures of a run are numbered from one
-/

namespace FlowScript

/-! ## Names of figures -/

/-- The name of a figure is a name that a file can have. -/
theorem isName_figureName (n : Nat) : IsName (figureName n) := by
  have hdigits := isWord_toString n
  have hfree : ∀ c : Char, isWordChar c = false → c ∉ (toString n).toList := by
    intro c hc hmem
    rw [hdigits c hmem] at hc
    cases hc
  have hparts : (figureName n).toList =
      ['f', 'i', 'g', 'u', 'r', 'e', '-'] ++ (toString n).toList ++ ['.', 'p', 'n', 'g'] := by
    simp [figureName]
  refine ⟨⟨?_, ?_, ?_⟩, ?_, ?_⟩
  · exact fun h => by simpa [hparts] using congrArg String.toList h
  · exact fun h => by simpa [hparts] using congrArg String.toList h
  · exact fun h => by simpa [hparts] using congrArg String.toList h
  · simpa [hparts] using hfree '/' rfl
  · simpa [hparts] using hfree '\x00' rfl

theorem figureName_injective {m n : Nat} (h : figureName m = figureName n) : m = n := by
  have hdigits := congrArg String.toList h
  simp only [figureName, String.toList_append] at hdigits
  exact toString_injective (String.toList_inj.mp
    (List.append_cancel_left (List.append_cancel_right hdigits)))

/-! ## One figure -/

namespace Workspace

variable {w w' : Workspace} {p q : Location}

/-- The directories are the same. -/
def SameDirectories (w w' : Workspace) : Prop :=
  ∀ p, w.at? p = some .directory ↔ w'.at? p = some .directory

namespace SameDirectories

theorem refl (w : Workspace) : w.SameDirectories w :=
  fun _ => .rfl

theorem symm (h : w.SameDirectories w') : w'.SameDirectories w :=
  fun p => (h p).symm

theorem trans {w₁ w₂ w₃ : Workspace} (h : w₁.SameDirectories w₂) (h' : w₂.SameDirectories w₃) :
    w₁.SameDirectories w₃ :=
  fun p => (h p).trans (h' p)

theorem keepsDirectories (h : w.SameDirectories w') : w.KeepsDirectories w' :=
  fun p hp => (h p).mp hp

end SameDirectories

/-- A file in the place of no directory leaves the directories as they are. -/
theorem sameDirectories_set (hp : w.at? p ≠ some .directory) (content : List UInt8) :
    w.SameDirectories (w.set p (.file content)) := by
  have hne : p ≠ [] := by
    rintro rfl
    exact hp rfl
  intro q
  rw [at?_set w hne]
  split
  case isTrue h =>
    subst h
    exact ⟨fun hq => absurd hq hp, fun hq => by cases hq⟩
  case isFalse => exact .rfl

/-- A path leads to a place, at which there is a directory. -/
structure LeadsToDirectory (w : Workspace) (dir : String) (p : Location) : Prop where
  leads : w.Leads dir p
  at?_eq : w.at? p = some .directory

theorem LeadsToDirectory.mono {dir : String} (h : w.LeadsToDirectory dir p)
    (hkeep : w.KeepsDirectories w') : w'.LeadsToDirectory dir p :=
  ⟨h.leads.mono hkeep, hkeep p h.at?_eq⟩

end Workspace

open Workspace (LeadsToDirectory nameLimit)

/-- Why a figure cannot be written into the directory at a place. -/
def figureFault? (w : Workspace) (p : Location) (n : Nat) : Option FileFault :=
  if nameLimit < (figureName n).utf8ByteSize then some .nameTooLong
  else
    match w.at? (p ++ [figureName n]) with
    | some .directory => some .isDirectory
    | _ => none

variable {w w' : Workspace} {p : Location} {dir : String} {n : Nat}

theorem figureFault?_of_directory (hsize : (figureName n).utf8ByteSize ≤ nameLimit)
    (hp : w.at? (p ++ [figureName n]) = some .directory) :
    figureFault? w p n = some .isDirectory := by
  simp [figureFault?, Nat.not_lt.mpr hsize, hp]

theorem figureFault?_of_not_directory (hsize : (figureName n).utf8ByteSize ≤ nameLimit)
    (hp : w.at? (p ++ [figureName n]) ≠ some .directory) : figureFault? w p n = none := by
  rw [figureFault?, if_neg (Nat.not_lt.mpr hsize)]
  split
  case h_1 h => exact absurd h hp
  case h_2 => rfl

/-- A figure can be written where there is no directory. -/
theorem figureFault?_eq_none_iff :
    figureFault? w p n = none ↔ (figureName n).utf8ByteSize ≤ nameLimit ∧
      w.at? (p ++ [figureName n]) ≠ some .directory := by
  constructor
  · intro h
    have hsize : (figureName n).utf8ByteSize ≤ nameLimit := by
      by_contra hlong
      rw [figureFault?, if_pos (Nat.not_le.mp hlong)] at h
      cases h
    refine ⟨hsize, fun hp => ?_⟩
    rw [figureFault?_of_directory hsize hp] at h
    cases h
  · exact fun h => figureFault?_of_not_directory h.1 h.2

/-- Whether a figure can be written depends on the directories only. -/
theorem figureFault?_congr (h : w.SameDirectories w') :
    figureFault? w p n = figureFault? w' p n := by
  by_cases hsize : nameLimit < (figureName n).utf8ByteSize
  · rw [figureFault?, figureFault?, if_pos hsize, if_pos hsize]
  · have hsize := Nat.not_lt.mp hsize
    by_cases hp : w.at? (p ++ [figureName n]) = some .directory
    · rw [figureFault?_of_directory hsize hp, figureFault?_of_directory hsize ((h _).mp hp)]
    · rw [figureFault?_of_not_directory hsize hp,
        figureFault?_of_not_directory hsize (fun hp' => hp ((h _).mpr hp'))]

/-- The place of a figure in the directory that a path leads to. -/
theorem target_figure (h : w.LeadsToDirectory dir p) :
    w.target (figurePath dir n) =
      if nameLimit < (figureName n).utf8ByteSize then .error .nameTooLong
      else .ok (p ++ [figureName n], false) := by
  have hname := isName_figureName n
  have hne := (Path.checked_eq_ok_iff.mp h.leads.checked).2
  rw [figurePath, Workspace.target_of_name (Path.splitAt_join hne hname) hname.1.1
    (Path.checked_join h.leads.checked hname)
    (Path.start_join hne hname ▸ Workspace.follow_folder h.leads),
    Workspace.step_eq_of_isName h.at?_eq hname]
  split <;> rfl

theorem write_of_fault (h : w.LeadsToDirectory dir p) {fault : FileFault}
    (hfault : figureFault? w p n = some fault) (image : List UInt8) :
    w.write (figurePath dir n) image = .error ⟨"open", figurePath dir n, fault⟩ := by
  rw [Workspace.write, target_figure h]
  unfold figureFault? at hfault
  split at hfault
  case isTrue hsize =>
    obtain rfl := Option.some.inj hfault
    simp only [if_pos hsize]
  case isFalse hsize =>
    split at hfault
    case h_1 hp =>
      obtain rfl := Option.some.inj hfault
      simp only [if_neg hsize, hp]
    case h_2 => cases hfault

theorem write_of_free (h : w.LeadsToDirectory dir p) (hfree : figureFault? w p n = none)
    (image : List UInt8) :
    w.write (figurePath dir n) image = .ok (w.set (p ++ [figureName n]) (.file image)) := by
  obtain ⟨hsize, hp⟩ := figureFault?_eq_none_iff.mp hfree
  rw [Workspace.write, target_figure h, if_neg (Nat.not_lt.mpr hsize)]
  split
  case h_1 h => cases h
  case h_2 h => cases h
  case h_3 place hplace =>
    obtain ⟨rfl, -⟩ := Prod.mk.inj (Except.ok.inj hplace)
    split
    case h_1 hdir => exact absurd hdir hp
    case h_2 => rfl

/-! ## All figures of a run -/

/-- Figures may have been written into the directory at a place; nothing else has changed. -/
structure Drawn (w : Workspace) (p : Location) (w' : Workspace) : Prop where
  directories : w.SameDirectories w'
  others : ∀ q, (∀ n, q ≠ p ++ [figureName n]) → w'.at? q = w.at? q

namespace Drawn

theorem refl (w : Workspace) (p : Location) : Drawn w p w :=
  ⟨.refl w, fun _ _ => rfl⟩

theorem trans {w₁ w₂ w₃ : Workspace} (h : Drawn w₁ p w₂) (h' : Drawn w₂ p w₃) : Drawn w₁ p w₃ :=
  ⟨h.directories.trans h'.directories, fun q hq => (h'.others q hq).trans (h.others q hq)⟩

end Drawn

theorem drawn_set (hfree : figureFault? w p n = none) (image : List UInt8) :
    Drawn w p (w.set (p ++ [figureName n]) (.file image)) where
  directories := Workspace.sameDirectories_set (figureFault?_eq_none_iff.mp hfree).2 image
  others q hq := by rw [Workspace.at?_set w (by simp), if_neg (hq n)]

theorem drawFigures_cons_of_fault (h : w.LeadsToDirectory dir p) {f : Figure} {rest : List Figure}
    {fault : FileFault} (hfault : figureFault? w p f.index = some fault) :
    drawFigures dir w (f :: rest) =
      (w, .error (.figure (figurePath dir f.index) ⟨"open", figurePath dir f.index, fault⟩)) := by
  rw [drawFigures]
  simp only [write_of_fault h hfault]

theorem drawFigures_cons_of_free (h : w.LeadsToDirectory dir p) {f : Figure} {rest : List Figure}
    (hfree : figureFault? w p f.index = none) :
    drawFigures dir w (f :: rest) =
      ((drawFigures dir (w.set (p ++ [figureName f.index]) (.file f.image)) rest).1,
        (drawFigures dir (w.set (p ++ [figureName f.index]) (.file f.image)) rest).2.map
          (figurePath dir f.index :: ·)) := by
  rw [drawFigures]
  simp only [write_of_free h hfree]

theorem Workspace.Tidy.drawFigures (h : w.Tidy) (dir : String) (figures : List Figure) :
    (drawFigures dir w figures).1.Tidy := by
  induction figures generalizing w with
  | nil => exact h
  | cons f rest ih =>
    rw [FlowScript.drawFigures]
    dsimp only
    split
    · exact h
    case h_2 v hwrite => exact ih (h.write hwrite)

/-- Writing figures changes their files only. -/
theorem drawn_drawFigures (h : w.LeadsToDirectory dir p) (figures : List Figure) :
    Drawn w p (drawFigures dir w figures).1 := by
  induction figures generalizing w with
  | nil => exact .refl w p
  | cons f rest ih =>
    cases hfault : figureFault? w p f.index with
    | some fault =>
      rw [drawFigures_cons_of_fault h hfault]
      exact .refl w p
    | none =>
      rw [drawFigures_cons_of_free h hfault]
      have hset := drawn_set hfault f.image
      exact hset.trans (ih (h.mono hset.directories.keepsDirectories))

/-- What can be written depends on the directories only. -/
theorem drawFigures_congr (h : w.LeadsToDirectory dir p) (hsame : w.SameDirectories w')
    (figures : List Figure) : (drawFigures dir w figures).2 = (drawFigures dir w' figures).2 := by
  have h' := h.mono hsame.keepsDirectories
  induction figures generalizing w w' with
  | nil => rfl
  | cons f rest ih =>
    have hcongr := figureFault?_congr hsame (p := p) (n := f.index)
    cases hfault : figureFault? w p f.index with
    | some fault =>
      rw [drawFigures_cons_of_fault h hfault, drawFigures_cons_of_fault h' (hcongr ▸ hfault)]
    | none =>
      have hfault' := hcongr ▸ hfault
      rw [drawFigures_cons_of_free h hfault, drawFigures_cons_of_free h' hfault']
      have hset := (drawn_set hfault f.image).directories
      have hset' := (drawn_set hfault' f.image).directories
      exact congrArg (Except.map (figurePath dir f.index :: ·))
        (ih (h.mono hset.keepsDirectories) (hset.symm.trans (hsame.trans hset'))
          (h'.mono hset'.keepsDirectories))

/-- A file that is none of the figures stays. -/
theorem at?_drawFigures_of_not_mem (h : w.LeadsToDirectory dir p) {figures : List Figure}
    (hn : n ∉ figures.map Figure.index) :
    (drawFigures dir w figures).1.at? (p ++ [figureName n]) = w.at? (p ++ [figureName n]) := by
  induction figures generalizing w with
  | nil => rfl
  | cons f rest ih =>
    obtain ⟨hne, hrest⟩ := not_or.mp (List.mem_cons.not.mp hn)
    cases hfault : figureFault? w p f.index with
    | some fault => rw [drawFigures_cons_of_fault h hfault]
    | none =>
      have hset := (drawn_set hfault f.image).directories
      rw [drawFigures_cons_of_free h hfault, ih (h.mono hset.keepsDirectories) hrest,
        Workspace.at?_set w (by simp), if_neg]
      intro heq
      exact hne (figureName_injective (List.singleton_inj.mp (List.append_cancel_left heq)))

/-- A figure is in its file if those up to it can be written. -/
theorem at?_drawFigures (h : w.LeadsToDirectory dir p) {figures : List Figure}
    (hsorted : figures.Pairwise (fun f g => f.index < g.index)) {f : Figure} (hf : f ∈ figures)
    (hfree : ∀ g ∈ figures, g.index ≤ f.index → figureFault? w p g.index = none) :
    (drawFigures dir w figures).1.at? (p ++ [figureName f.index]) = some (.file f.image) := by
  induction figures generalizing w with
  | nil => cases hf
  | cons first rest ih =>
    obtain ⟨hlt, hsorted⟩ := List.pairwise_cons.mp hsorted
    have hle : first.index ≤ f.index := by
      rcases List.mem_cons.mp hf with rfl | hf
      · exact Nat.le_refl _
      · exact Nat.le_of_lt (hlt f hf)
    have hfirst := hfree first List.mem_cons_self hle
    have hset := (drawn_set hfirst first.image).directories
    have h' := h.mono hset.keepsDirectories
    rw [drawFigures_cons_of_free h hfirst]
    rcases List.mem_cons.mp hf with rfl | hf
    · -- the figures behind it have other numbers
      rw [at?_drawFigures_of_not_mem h', Workspace.at?_set w (by simp), if_pos rfl]
      intro hmem
      obtain ⟨g, hg, heq⟩ := List.mem_map.mp hmem
      exact absurd heq (Nat.ne_of_gt (hlt g hg))
    · refine ih h' hsorted hf ?_
      intro g hg hle
      rw [← figureFault?_congr hset]
      exact hfree g (List.mem_cons_of_mem first hg) hle

/-- If all figures were written, each one could be, and their paths are given. -/
theorem of_drawFigures_eq_ok (h : w.LeadsToDirectory dir p) {figures : List Figure}
    {files : List String} (hok : (drawFigures dir w figures).2 = .ok files) :
    files = figures.map (fun f => figurePath dir f.index) ∧
      ∀ f ∈ figures, figureFault? w p f.index = none := by
  induction figures generalizing w files with
  | nil => exact ⟨(Except.ok.inj hok).symm, fun _ hf => by cases hf⟩
  | cons first rest ih =>
    cases hfault : figureFault? w p first.index with
    | some fault =>
      rw [drawFigures_cons_of_fault h hfault] at hok
      cases hok
    | none =>
      rw [drawFigures_cons_of_free h hfault] at hok
      have hset := (drawn_set hfault first.image).directories
      cases hrest : (drawFigures dir
          (w.set (p ++ [figureName first.index]) (.file first.image)) rest).2 with
      | error e =>
        rw [hrest] at hok
        cases hok
      | ok more =>
        rw [hrest] at hok
        obtain rfl := Except.ok.inj hok
        obtain ⟨rfl, hfree⟩ := ih (h.mono hset.keepsDirectories) hrest
        refine ⟨rfl, ?_⟩
        intro f hf
        rcases List.mem_cons.mp hf with rfl | hf
        · exact hfault
        · rw [figureFault?_congr hset]
          exact hfree f hf

/-! ## Numbers of figures -/

/-- The figures are numbered from one. -/
def Numbered (figures : List Figure) : Prop :=
  figures.map Figure.index = List.range' 1 figures.length

namespace Numbered

variable {figures : List Figure}

theorem sorted (h : Numbered figures) : figures.Pairwise (fun f g => f.index < g.index) := by
  have hsorted := List.pairwise_lt_range' (s := 1) (n := figures.length)
  rw [← h] at hsorted
  exact List.pairwise_map.mp hsorted

theorem mem_map_index (h : Numbered figures) :
    n ∈ figures.map Figure.index ↔ 1 ≤ n ∧ n ≤ figures.length := by
  rw [h, List.mem_range'_1]
  omega

end Numbered

theorem index_addLine {o : Output} {line : List Char}
    (h : o.figures.reverse.map Figure.index = List.range' 1 o.figures.length) :
    (o.addLine line).figures.reverse.map Figure.index =
      List.range' 1 (o.addLine line).figures.length := by
  unfold Output.addLine
  split
  · split <;> exact h
  · dsimp only
    split
    · exact h
    · split
      · exact h
      · simp [h, List.range'_1_concat, Nat.add_comm]

/-- The figures of a run are numbered from one. -/
theorem numbered_figures {text : String} {o : Output} (h : Output.ofText? text = some o) :
    Numbered o.figures := by
  have hlines : ∀ (lines : List (List Char)) (o : Output),
      o.figures.reverse.map Figure.index = List.range' 1 o.figures.length →
        (lines.foldl Output.addLine o).figures.reverse.map Figure.index =
          List.range' 1 (lines.foldl Output.addLine o).figures.length := by
    intro lines
    induction lines with
    | nil => exact fun _ h => h
    | cons line rest ih => exact fun o h => ih (o.addLine line) (index_addLine h)
  unfold Output.ofText? at h
  split at h
  · cases h
  · obtain rfl := Option.some.inj h
    simpa [Numbered] using hlines _ {} rfl

end FlowScript
