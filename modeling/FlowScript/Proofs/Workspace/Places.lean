import FlowScript.Workspace.Basic
import Mathlib.Data.List.Induction

/-!
# Places in a workspace

What an operation changes is said place by place. A path goes through directories only, so it leads to
the same place as long as those directories stay.

## Main definitions

- `Workspace.KeepsDirectories` — no directory is lost
- `Workspace.Leads` — a path leads to a place

## Main results

- `Workspace.at?_set` — one place changes
- `Workspace.Leads.mono` — a path leads on when directories are kept
- `Workspace.target_of_name` — where a file of a name would be written
-/

namespace FlowScript.Workspace

variable {w w' : Workspace} {p q : Location}

/-! ## What stands at a place -/

@[simp] theorem at?_nil (w : Workspace) : w.at? [] = some .directory :=
  rfl

theorem lookup_replaced (entries : List (Location × Entry)) (p q : Location) (e : Entry) :
    (entries.map (fun entry => if entry.1 == p then (p, e) else entry)).lookup q =
      if q = p then (entries.lookup q).map (fun _ => e) else entries.lookup q := by
  induction entries with
  | nil => simp
  | cons first rest ih =>
    have hkey : (if first.1 == p then (p, e) else first).1 = first.1 := by
      split
      case isTrue h => exact (beq_iff_eq.mp h).symm
      case isFalse => rfl
    rw [List.map_cons, List.lookup_cons, List.lookup_cons, hkey, ih]
    by_cases hq : q = first.1
    · subst hq
      by_cases hp : first.1 = p <;> simp [hp]
    · simp only [beq_eq_false_iff_ne.mpr hq]

theorem isSome_lookup (entries : List (Location × Entry)) (p : Location) :
    (entries.lookup p).isSome = entries.any (fun entry => entry.1 == p) := by
  induction entries with
  | nil => rfl
  | cons first rest ih =>
    rw [List.lookup_cons, List.any_cons, ← ih]
    by_cases h : first.1 = p
    · simp [h]
    · have hne : (p == first.1) = false := by simpa using Ne.symm h
      simp [h, hne]

/-- One place changes. -/
theorem at?_set (w : Workspace) (hp : p ≠ []) (e : Entry) (q : Location) :
    (w.set p e).at? q = if q = p then some e else w.at? q := by
  by_cases hq : q = []
  · subst hq
    rw [if_neg (Ne.symm hp), at?_nil, at?_nil]
  · have hempty : q.isEmpty = false := by simpa using hq
    have hat : ∀ v : Workspace, v.at? q = v.entries.lookup q := by
      intro v
      rw [at?, hempty]
      rfl
    rw [hat, hat, set]
    have hsome := isSome_lookup w.entries p
    split
    case isTrue hany =>
      rw [lookup_replaced]
      by_cases hqp : q = p
      · subst hqp
        obtain ⟨old, hold⟩ := Option.isSome_iff_exists.mp (hsome.trans hany)
        simp [hold]
      · simp [hqp]
    case isFalse hany =>
      have hnone : w.entries.lookup p = none := by simpa [hany] using hsome
      rw [List.lookup_append]
      by_cases hqp : q = p
      · subst hqp
        simp [hnone]
      · simp [hqp, List.lookup_cons, beq_eq_false_iff_ne.mpr hqp]

/-! ## Following paths -/

/-- No directory is lost. -/
def KeepsDirectories (w w' : Workspace) : Prop :=
  ∀ p, w.at? p = some .directory → w'.at? p = some .directory

theorem KeepsDirectories.trans {w₁ w₂ w₃ : Workspace} (h : w₁.KeepsDirectories w₂)
    (h' : w₂.KeepsDirectories w₃) : w₁.KeepsDirectories w₃ :=
  fun p hp => h' p (h p hp)

/-- A step is taken from a directory. -/
theorem directory_of_step {segment : String} (h : w.step p segment = .ok q) :
    w.at? p = some .directory := by
  unfold step at h
  split at h
  case h_3 hp => exact hp
  all_goals cases h

/-- A step from a directory does not look at anything else. -/
theorem step_congr (hp : w.at? p = some .directory) (hp' : w'.at? p = some .directory)
    (segment : String) : w.step p segment = w'.step p segment := by
  simp only [step, hp, hp']

theorem follow_nil (w : Workspace) (p : Location) : w.follow p [] = .ok p :=
  rfl

theorem follow_cons (w : Workspace) (p : Location) (segment : String) (rest : List String) :
    w.follow p (segment :: rest) = w.step p segment >>= fun q => w.follow q rest :=
  rfl

theorem follow_append (w : Workspace) (p : Location) (as bs : List String) :
    w.follow p (as ++ bs) = w.follow p as >>= fun q => w.follow q bs :=
  List.foldlM_append

theorem follow_concat_eq_ok_iff {segments : List String} {segment : String} :
    w.follow p (segments ++ [segment]) = .ok q ↔
      ∃ r, w.follow p segments = .ok r ∧ w.step r segment = .ok q := by
  rw [follow_append]
  cases h : w.follow p segments with
  | error fault => simp [bind, Except.bind]
  | ok r =>
    have hone : w.follow r [segment] = w.step r segment := by
      simp only [Workspace.follow, List.foldlM_cons, List.foldlM_nil, bind_pure]
    simp [bind, Except.bind, hone]

/-- Segments lead somewhere from a directory only. -/
theorem directory_of_follow {segments : List String} (hne : segments ≠ [])
    (h : w.follow p segments = .ok q) : w.at? p = some .directory := by
  cases segments with
  | nil => exact absurd rfl hne
  | cons segment rest =>
    rw [follow_cons] at h
    cases hstep : w.step p segment with
    | error fault => simp [hstep, bind, Except.bind] at h
    | ok r => exact directory_of_step hstep

/-- Segments lead on when directories are kept. -/
theorem follow_mono (h : w.KeepsDirectories w') {segments : List String}
    (hfollow : w.follow p segments = .ok q) : w'.follow p segments = .ok q := by
  induction segments using List.reverseRecOn generalizing q with
  | nil => exact hfollow
  | append_singleton segments segment ih =>
    obtain ⟨r, hr, hstep⟩ := follow_concat_eq_ok_iff.mp hfollow
    have hdir := directory_of_step hstep
    exact follow_concat_eq_ok_iff.mpr ⟨r, ih hr, step_congr hdir (h r hdir) segment ▸ hstep⟩

/-- A path leads to a place. -/
structure Leads (w : Workspace) (path : String) (p : Location) : Prop where
  checked : checked path = .ok ()
  follow : w.follow (start path) (splitAt '/' path) = .ok p

/-- A path leads on when directories are kept. -/
theorem Leads.mono {path : String} (hp : w.Leads path p) (h : w.KeepsDirectories w') :
    w'.Leads path p :=
  ⟨hp.checked, follow_mono h hp.follow⟩

theorem entry_eq_ok_iff {path : String} {e : Entry} :
    w.entry path = .ok e ↔ ∃ p, w.Leads path p ∧ w.at? p = some e := by
  unfold entry
  constructor
  · intro h
    cases hcheck : checked path with
    | error fault => simp [hcheck, bind, Except.bind] at h
    | ok u =>
      cases hfollow : w.follow (start path) (splitAt '/' path) with
      | error fault => simp [hcheck, hfollow, bind, Except.bind] at h
      | ok p =>
        refine ⟨p, ⟨hcheck, hfollow⟩, ?_⟩
        cases hat : w.at? p with
        | none => simp [hcheck, hfollow, hat, bind, Except.bind, throw, throwThe,
            MonadExceptOf.throw] at h
        | some e' => simpa [hcheck, hfollow, hat, bind, Except.bind, pure, Except.pure] using h
  · rintro ⟨p, hp, hat⟩
    simp [hp.checked, hp.follow, hat, bind, Except.bind, pure, Except.pure]

theorem isDirectory_iff {path : String} :
    w.isDirectory path = true ↔ ∃ p, w.Leads path p ∧ w.at? p = some .directory := by
  rw [← entry_eq_ok_iff, isDirectory]
  split
  case h_1 h => simp [h]
  case h_2 h => simpa using h

/-- Where a file would be written whose name ends the path. -/
theorem target_of_name {path name : String} {before : List String}
    (hsplit : splitAt '/' path = before ++ [name]) (hname : name ≠ "")
    (hcheck : checked path = .ok ()) (hfollow : w.follow (start path) before = .ok p) :
    w.target path = (w.step p name).map (fun q => (q, false)) := by
  have hback : (splitAt '/' path).reverse = name :: before.reverse := by
    rw [hsplit, List.reverse_append]
    rfl
  have hempty : name.isEmpty = false := by simpa using hname
  simp only [target, hcheck, hback, List.dropWhile_cons, hempty, Bool.false_eq_true, if_false,
    List.reverse_reverse, hfollow, bind, Except.bind]
  cases w.step p name <;> simp [Except.map, pure, Except.pure]

end FlowScript.Workspace
