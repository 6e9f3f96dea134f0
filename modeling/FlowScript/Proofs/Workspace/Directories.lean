import FlowScript.Proofs.Workspace.Paths
import Mathlib.Data.List.TakeWhile

/-!
# Creating directories

Directories are created from the top down to the one that is wanted. Nothing else in a workspace
changes. What could be created stays when that fails, so a second attempt creates nothing more; it
fails as well, though the reason it finds may be another one.

## Main definitions

- `Workspace.Grows` — directories have appeared and nothing else has changed

## Main results

- `Workspace.grows_ensureDirectories` — creating directories does nothing else
- `Workspace.isDirectory_ensureDirectories` — the directory is there if that succeeds
- `Workspace.ensureDirectories_again` — a second attempt fails like the first one
-/

namespace FlowScript.Workspace

variable {w w' : Workspace} {p q : Location} {path : String}

/-! ## Directories that appear -/

/-- Directories have appeared at free places; everything else is as it was. -/
def Grows (w w' : Workspace) : Prop :=
  ∀ p, w'.at? p = w.at? p ∨ w.at? p = none ∧ w'.at? p = some .directory

namespace Grows

theorem refl (w : Workspace) : w.Grows w :=
  fun _ => .inl rfl

theorem trans {w₁ w₂ w₃ : Workspace} (h : w₁.Grows w₂) (h' : w₂.Grows w₃) : w₁.Grows w₃ := by
  intro p
  rcases h' p with hsame | ⟨hnone, hdir⟩
  · rw [hsame]
    exact h p
  · rcases h p with hsame | ⟨-, hdir'⟩
    · exact .inr ⟨hsame ▸ hnone, hdir⟩
    · rw [hdir'] at hnone
      cases hnone

/-- What stands somewhere stays. -/
theorem at?_eq_some (h : w.Grows w') {e : Entry} (hp : w.at? p = some e) : w'.at? p = some e := by
  rcases h p with hsame | ⟨hnone, -⟩
  · exact hsame.trans hp
  · rw [hp] at hnone
    cases hnone

theorem keepsDirectories (h : w.Grows w') : w.KeepsDirectories w' :=
  fun _ hp => h.at?_eq_some hp

end Grows

theorem grows_set (hp : w.at? p = none) : w.Grows (w.set p .directory) := by
  have hne : p ≠ [] := by
    rintro rfl
    cases hp
  intro q
  rw [at?_set w hne]
  by_cases hq : q = p
  · subst hq
    exact .inr ⟨hp, if_pos rfl⟩
  · exact .inl (if_neg hq)

/-! ## One directory -/

/-- Empty segments lead nowhere else. -/
theorem follow_empty (hp : w.at? p = some .directory) {segments : List String}
    (h : ∀ segment ∈ segments, segment = "") : w.follow p segments = .ok p := by
  induction segments with
  | nil => rfl
  | cons segment rest ih =>
    obtain rfl := h segment List.mem_cons_self
    have hstay : w.step p "" = .ok p := by simp [step, hp]
    rw [follow_cons, hstay]
    exact ih (fun s hs => h s (List.mem_cons_of_mem _ hs))

/-- A target is where a path leads when the slashes at its end are left out. -/
theorem follow_of_target {slashes : Bool} (h : w.target path = .ok (p, slashes)) :
    checked path = .ok () ∧ ∃ front back, splitAt '/' path = front ++ back ∧
      (∀ segment ∈ back, segment = "") ∧ w.follow (start path) front = .ok p := by
  cases hcheck : checked path with
  | error fault => simp [target, hcheck, bind, Except.bind] at h
  | ok u =>
    refine ⟨rfl, ?_⟩
    have hsplit : splitAt '/' path =
        ((splitAt '/' path).reverse.dropWhile (·.isEmpty)).reverse ++
          ((splitAt '/' path).reverse.takeWhile (·.isEmpty)).reverse := by
      rw [← List.reverse_append, List.takeWhile_append_dropWhile, List.reverse_reverse]
    refine ⟨_, _, hsplit, ?_, ?_⟩
    · intro segment hsegment
      simpa using List.mem_takeWhile_imp (List.mem_reverse.mp hsegment)
    · cases hnames : (splitAt '/' path).reverse.dropWhile (·.isEmpty) with
      | nil =>
        simp only [target, hcheck, hnames, bind, Except.bind, pure, Except.pure, Except.ok.injEq,
          Prod.mk.injEq] at h
        exact congrArg Except.ok h.1
      | cons last before =>
        rw [List.reverse_cons, follow_concat_eq_ok_iff]
        simp only [target, hcheck, hnames, bind, Except.bind] at h
        cases hfollow : w.follow (start path) before.reverse with
        | error fault => simp [hfollow] at h
        | ok r =>
          cases hstep : w.step r last with
          | error fault => simp [hfollow, hstep] at h
          | ok q =>
            simp only [hfollow, hstep, pure, Except.pure, Except.ok.injEq, Prod.mk.injEq] at h
            exact ⟨r, rfl, by rw [hstep, h.1]⟩

/-- A path leads to its target once a directory stands there. -/
theorem leads_of_target {slashes : Bool} (h : w.target path = .ok (p, slashes))
    (hkeep : w.KeepsDirectories w') (hp : w'.at? p = some .directory) : w'.Leads path p := by
  obtain ⟨hcheck, front, back, hsplit, hback, hfollow⟩ := follow_of_target h
  refine ⟨hcheck, ?_⟩
  rw [hsplit, follow_append, follow_mono hkeep hfollow]
  exact follow_empty hp hback

/-- Creating a directory puts it where its path leads. -/
theorem makeDirectory_spec (h : w.makeDirectory path = .ok w') :
    w.Grows w' ∧ w'.isDirectory path = true := by
  unfold makeDirectory at h
  split at h
  · cases h
  case h_2 p slashes htarget =>
    split at h
    · cases h
    case h_2 hnone =>
      obtain rfl := Except.ok.inj h
      have hgrows := grows_set hnone
      have hat : (w.set p .directory).at? p = some .directory := by
        rcases hgrows p with hsame | ⟨-, hdir⟩
        · have hne : p ≠ [] := by
            rintro rfl
            cases hnone
          rw [at?_set w hne, if_pos rfl]
        · exact hdir
      exact ⟨hgrows, isDirectory_iff.mpr
        ⟨p, leads_of_target htarget hgrows.keepsDirectories hat, hat⟩⟩

theorem grows_ensureDirectory (w : Workspace) (path : String) :
    w.Grows (w.ensureDirectory path).1 := by
  unfold ensureDirectory
  split
  case h_1 hmake => exact (makeDirectory_spec hmake).1
  case h_2 => exact .refl w

theorem isDirectory_ensureDirectory (h : (w.ensureDirectory path).2 = none) :
    (w.ensureDirectory path).1.isDirectory path = true := by
  unfold ensureDirectory at h ⊢
  split at h
  case h_1 hmake => exact (makeDirectory_spec hmake).2
  case h_2 =>
    by_contra hdir
    rw [if_neg hdir] at h
    cases h

/-- A directory that cannot be created is not there, and nothing has changed. -/
theorem of_ensureDirectory_fails (h : (w.ensureDirectory path).2 ≠ none) :
    (w.ensureDirectory path).1 = w ∧ w.isDirectory path = false := by
  unfold ensureDirectory at h ⊢
  split at h
  · exact absurd rfl h
  case h_2 =>
    refine ⟨rfl, ?_⟩
    by_contra hdir
    rw [if_pos (by simpa using hdir)] at h
    exact h rfl

/-! ## A directory and those above it -/

theorem ensureDirectories_of_isDirectory {path : List Char}
    (h : w.isDirectory (String.ofList path) = true) : w.ensureDirectories path = (w, none) := by
  unfold isDirectory at h
  rw [ensureDirectories]
  split at h
  case h_1 hentry => rw [hentry]
  case h_2 => cases h

/-- Creating directories creates directories and nothing else, also when it fails. -/
theorem grows_ensureDirectories (w : Workspace) (path : List Char) :
    w.Grows (w.ensureDirectories path).1 := by
  fun_induction ensureDirectories w path with
  | case1 => exact .refl w
  | case2 => exact .refl w
  | case3 => exact grows_ensureDirectory w _
  | case4 path fault hentry hpath above e habove ih => exact habove ▸ ih
  | case5 path fault hentry hpath above habove ih =>
    rw [habove] at ih
    exact ih.trans (grows_ensureDirectory above _)

/-- A directory that could be created is there. -/
theorem isDirectory_ensureDirectories {path : List Char} (h : (w.ensureDirectories path).2 = none) :
    (w.ensureDirectories path).1.isDirectory (String.ofList path) = true := by
  fun_induction ensureDirectories w path with
  | case1 path hentry => simp [isDirectory, hentry]
  | case2 => cases h
  | case3 => exact isDirectory_ensureDirectory h
  | case4 => cases h
  | case5 => exact isDirectory_ensureDirectory h

/-- What is above a path ends at one of its slashes. -/
theorem exists_parent_eq {path : List Char} (hne : Path.parent path ≠ []) :
    ∃ front rest : List Char, Path.parent path = front ++ ['/'] ∧ path = front ++ '/' :: rest := by
  have hlast : path.reverse.takeWhile (· == '/') ++ path.reverse.dropWhile (· == '/') =
      path.reverse := List.takeWhile_append_dropWhile
  generalize path.reverse.takeWhile (· == '/') = slashes at hlast
  rw [Path.parent, Ne, List.reverse_eq_nil_iff] at hne
  rw [Path.parent]
  generalize path.reverse.dropWhile (· == '/') = back at hlast hne ⊢
  have hname : back.takeWhile (· != '/') ++ back.dropWhile (· != '/') = back :=
    List.takeWhile_append_dropWhile
  have hslash := List.head_dropWhile_not (· != '/') hne
  cases habove : back.dropWhile (· != '/') with
  | nil => exact absurd habove hne
  | cons c above =>
    obtain rfl : c = '/' := by simpa [habove] using hslash
    rw [habove] at hname
    refine ⟨above.reverse, (back.takeWhile (· != '/')).reverse ++ slashes.reverse, ?_, ?_⟩
    · simp
    · have hpath := congrArg List.reverse hlast
      rw [List.reverse_reverse, ← hname] at hpath
      rw [← hpath]
      simp

/-- A path to a directory leads through the directory that is named above it. -/
theorem isDirectory_parent {path : List Char} (h : w.isDirectory (String.ofList path) = true)
    (hne : Path.parent path ≠ []) : w.isDirectory (String.ofList (Path.parent path)) = true := by
  obtain ⟨front, rest, hparent, hpath⟩ := exists_parent_eq hne
  obtain ⟨p, hleads, -⟩ := isDirectory_iff.mp h
  obtain ⟨hzero, -⟩ := Path.checked_eq_ok_iff.mp hleads.checked
  have hsplit : splitAt '/' (String.ofList path) =
      (Text.cut '/' front).map String.ofList ++ (Text.cut '/' rest).map String.ofList := by
    rw [splitAt, String.toList_ofList, hpath, Text.cut, Text.cutWhere_append_sep (by simp),
      List.map_append]
    rfl
  have hsplit' : splitAt '/' (String.ofList (Path.parent path)) =
      (Text.cut '/' front).map String.ofList ++ [""] := by
    rw [splitAt, String.toList_ofList, hparent, Text.cut, Text.cutWhere_append_sep (by simp),
      List.map_append]
    rfl
  have hstart : start (String.ofList (Path.parent path)) = start (String.ofList path) := by
    rw [start, start, String.toList_ofList, String.toList_ofList, hparent, hpath]
    cases front <;> rfl
  have hfollow := hleads.follow
  rw [hsplit, follow_append] at hfollow
  cases hfront : w.follow (start (String.ofList path)) ((Text.cut '/' front).map String.ofList) with
  | error fault => simp [hfront, bind, Except.bind] at hfollow
  | ok r =>
    rw [hfront] at hfollow
    have hr : w.at? r = some .directory :=
      directory_of_follow (by simp [Text.cut, Text.cutWhere_ne_nil]) hfollow
    refine isDirectory_iff.mpr ⟨r, ⟨Path.checked_eq_ok_iff.mpr ⟨?_, ?_⟩, ?_⟩, hr⟩
    · rw [String.toList_ofList, hparent]
      rw [String.toList_ofList, hpath] at hzero
      simp only [List.mem_append, List.mem_cons, not_or] at hzero
      simp [hzero.1]
    · simpa using hne
    · rw [hsplit', hstart]
      exact follow_concat_eq_ok_iff.mpr ⟨r, hfront, by simp [step, hr]⟩

/-- Nothing changes where a directory cannot be created and the directories above it could not, or are
there already. -/
theorem ensureDirectories_stuck {path : List Char} (hdir : w.isDirectory (String.ofList path) = false)
    (hpath : ¬(path = [] ∨ Path.parent path = []))
    (h : (∃ e, w.ensureDirectories (Path.parent path) = (w, some e)) ∨
      w.ensureDirectories (Path.parent path) = (w, none) ∧
        (w.ensureDirectory (String.ofList path)).2 ≠ none) :
    (w.ensureDirectories path).1 = w ∧ (w.ensureDirectories path).2 ≠ none := by
  rw [ensureDirectories]
  split
  case h_1 hentry => simp [isDirectory, hentry] at hdir
  case h_2 => simp
  case h_3 =>
    rw [if_neg hpath]
    rcases h with ⟨e, habove⟩ | ⟨habove, hfails⟩
    · simp [habove]
    · rw [habove]
      exact ⟨(of_ensureDirectory_fails hfails).1, hfails⟩

/-- A second attempt to create directories changes nothing and fails again. -/
theorem ensureDirectories_again {path : List Char} (h : (w.ensureDirectories path).2 ≠ none) :
    ((w.ensureDirectories path).1.ensureDirectories path).1 = (w.ensureDirectories path).1 ∧
      ((w.ensureDirectories path).1.ensureDirectories path).2 ≠ none := by
  fun_induction ensureDirectories w path with
  | case1 => exact absurd rfl h
  | case2 path content hentry => simp [ensureDirectories, hentry]
  | case3 path fault hentry hpath =>
    obtain ⟨hsame, -⟩ := of_ensureDirectory_fails h
    rw [hsame, ensureDirectories, hentry]
    simp only [if_pos hpath]
    exact ⟨hsame, h⟩
  | case4 path fault hentry hpath above e habove ih =>
    have hne : Path.parent path ≠ [] := fun hnil => hpath (.inr hnil)
    rw [habove] at ih
    obtain ⟨hsame, hfails⟩ := ih (by simp)
    -- the directory cannot have appeared, since that would need those above it
    obtain ⟨e', he'⟩ := Option.ne_none_iff_exists'.mp hfails
    refine ensureDirectories_stuck ?_ hpath (.inl ⟨e', Prod.ext hsame he'⟩)
    by_contra hdir
    rw [ensureDirectories_of_isDirectory (isDirectory_parent (by simpa using hdir) hne)] at hfails
    exact hfails rfl
  | case5 path fault hentry hpath above habove ih =>
    obtain ⟨hsame, hdir⟩ := of_ensureDirectory_fails h
    have hparent : above.isDirectory (String.ofList (Path.parent path)) = true := by
      have hmade : (w.ensureDirectories (Path.parent path)).2 = none := by rw [habove]
      simpa only [habove] using isDirectory_ensureDirectories hmade
    rw [hsame]
    exact ensureDirectories_stuck hdir hpath (.inr ⟨ensureDirectories_of_isDirectory hparent, h⟩)

end FlowScript.Workspace
