import FlowScript.Proofs.Workspace.Directories

/-!
# Tidy workspaces

A workspace is tidy if everything stands in a directory, under a name that a file can have. The empty
workspace is tidy, and so is what creating directories and files makes of a tidy workspace.

## Main definitions

- `Workspace.Stands` — something can stand at a place
- `Workspace.Tidy` — everything stands where it can

## Main results

- `Workspace.Tidy.write`, `Workspace.Tidy.ensureDirectories`, `Workspace.Tidy.put` — operations keep a
  workspace tidy
-/

namespace FlowScript

deriving instance DecidableEq for Entry

namespace Workspace

variable {w w' : Workspace} {p q : Location} {path : String}

/-- Something can stand at a place: it is the root, or its name is one that a file can have and it is in
a directory. -/
def Stands (w : Workspace) (p : Location) : Prop :=
  p = root ∨
    (∀ name ∈ p.getLast?, IsName name ∧ name.utf8ByteSize ≤ nameLimit) ∧
      w.at? p.dropLast = some .directory

/-- Everything stands where it can. -/
def Tidy (w : Workspace) : Prop :=
  ∀ entry ∈ w.entries, w.Stands entry.1

instance (w : Workspace) (p : Location) : Decidable (w.Stands p) :=
  inferInstanceAs (Decidable (_ ∨ _ ∧ _))

instance (w : Workspace) : Decidable w.Tidy :=
  inferInstanceAs (Decidable (∀ entry ∈ w.entries, w.Stands entry.1))

theorem tidy_empty : Tidy {} :=
  fun _ h => absurd h List.not_mem_nil

theorem Stands.mono (h : w.Stands p) (hkeep : w.KeepsDirectories w') : w'.Stands p :=
  h.imp id (fun hname => ⟨hname.1, hkeep _ hname.2⟩)

/-- What stands somewhere can stand there. -/
theorem Tidy.stands (h : w.Tidy) {e : Entry} (hp : w.at? p = some e) (hne : p ≠ []) :
    w.Stands p := by
  have hlookup : w.entries.lookup p = some e := by
    simpa [at?, hne] using hp
  have hany := (isSome_lookup w.entries p).symm.trans (by rw [hlookup, Option.isSome_some])
  obtain ⟨entry, hentry, heq⟩ := List.any_eq_true.mp hany
  rw [← beq_iff_eq.mp heq]
  exact h entry hentry

theorem mem_set {e : Entry} {entry : Location × Entry} (h : entry ∈ (w.set p e).entries) :
    entry.1 = p ∨ entry ∈ w.entries := by
  unfold set at h
  split at h
  · obtain ⟨old, hold, rfl⟩ := List.mem_map.mp h
    split
    · exact .inl rfl
    · exact .inr hold
  · rcases List.mem_append.mp h with hold | hnew
    · exact .inr hold
    · exact .inl (congrArg Prod.fst (List.mem_singleton.mp hnew))

theorem keepsDirectories_set (hp : w.at? p ≠ some .directory) (e : Entry) :
    w.KeepsDirectories (w.set p e) := by
  have hne : p ≠ [] := by
    rintro rfl
    exact hp rfl
  intro q hq
  rw [at?_set w hne, if_neg]
  · exact hq
  · rintro rfl
    exact hp hq

theorem Tidy.set (h : w.Tidy) (hp : w.at? p ≠ some .directory) (hstands : w.Stands p) (e : Entry) :
    (w.set p e).Tidy := by
  have hkeep := keepsDirectories_set hp e
  intro entry hentry
  rcases mem_set hentry with heq | hold
  · exact heq ▸ hstands.mono hkeep
  · exact (h entry hold).mono hkeep

/-! ## Targets -/

/-- A segment of a path that can be looked up holds neither a slash nor a null character. -/
theorem free_of_mem_splitAt {segment : String} (hcheck : checked path = .ok ())
    (h : segment ∈ splitAt '/' path) : '/' ∉ segment.toList ∧ '\x00' ∉ segment.toList := by
  obtain ⟨piece, hpiece, rfl⟩ := List.mem_map.mp h
  rw [String.toList_ofList]
  constructor
  · intro hslash
    simpa using Text.cutWhere_free hpiece '/' hslash
  · intro hzero
    refine (Path.checked_eq_ok_iff.mp hcheck).1 ?_
    rw [← Text.glue_cut '/' path.toList]
    exact Text.mem_glue_of_mem hpiece hzero

/-- A step leads to a directory or to where something can stand. -/
theorem Tidy.stands_of_step (h : w.Tidy) {segment : String} (hstep : w.step p segment = .ok q)
    (hfree : '/' ∉ segment.toList ∧ '\x00' ∉ segment.toList) :
    w.at? q = some .directory ∨ w.Stands q := by
  have hp := directory_of_step hstep
  by_cases hstill : segment = "" ∨ segment = "."
  · rw [step_still hstep hstill]
    exact .inl hp
  · obtain ⟨hempty, hdot⟩ := not_or.mp hstill
    by_cases hdots : segment = ".."
    · subst hdots
      rw [step_up hstep]
      split
      · exact .inr (.inl rfl)
      case isFalse hroot =>
        by_cases hne : p = []
        · rw [hne]
          exact .inl rfl
        · exact .inl ((h.stands hp hne).resolve_left hroot).2
    · have hname : IsName segment := ⟨⟨hempty, hdot, hdots⟩, hfree⟩
      rw [step_eq_of_isName hp hname] at hstep
      split at hstep
      · cases hstep
      case isFalse hsize =>
        obtain rfl := Except.ok.inj hstep
        refine .inr (.inr ⟨fun name hlast => ?_, by rwa [List.dropLast_concat]⟩)
        obtain rfl : segment = name := by simpa using hlast
        exact ⟨hname, Nat.not_lt.mp hsize⟩

/-- A target is a directory or where something can stand. -/
theorem Tidy.stands_of_target (h : w.Tidy) {slashes : Bool}
    (htarget : w.target path = .ok (p, slashes)) : w.at? p = some .directory ∨ w.Stands p := by
  obtain ⟨hcheck, front, back, hsplit, -, hfollow⟩ := follow_of_target htarget
  rcases List.eq_nil_or_concat front with rfl | ⟨before, last, rfl⟩
  · obtain rfl := Except.ok.inj hfollow
    unfold start
    split
    · exact .inr (.inl rfl)
    · exact .inl rfl
  · rw [List.concat_eq_append] at hsplit hfollow
    obtain ⟨r, -, hstep⟩ := follow_concat_eq_ok_iff.mp hfollow
    exact h.stands_of_step hstep (free_of_mem_splitAt hcheck (by simp [hsplit]))

theorem Tidy.write (h : w.Tidy) {content : List UInt8} (hwrite : w.write path content = .ok w') :
    w'.Tidy := by
  unfold Workspace.write at hwrite
  split at hwrite
  · cases hwrite
  · cases hwrite
  case h_3 p htarget =>
    split at hwrite
    · cases hwrite
    case h_2 hp =>
      obtain rfl := Except.ok.inj hwrite
      exact h.set hp ((h.stands_of_target htarget).resolve_left hp) _

theorem Tidy.makeDirectory (h : w.Tidy) (hmake : w.makeDirectory path = .ok w') : w'.Tidy := by
  unfold Workspace.makeDirectory at hmake
  split at hmake
  · cases hmake
  case h_2 p slashes htarget =>
    split at hmake
    · cases hmake
    case h_2 hnone =>
      obtain rfl := Except.ok.inj hmake
      have hp : w.at? p ≠ some .directory := by simp [hnone]
      exact h.set hp ((h.stands_of_target htarget).resolve_left hp) _

theorem Tidy.ensureDirectory (h : w.Tidy) (path : String) : (w.ensureDirectory path).1.Tidy := by
  unfold Workspace.ensureDirectory
  split
  case h_1 hmake => exact h.makeDirectory hmake
  case h_2 => exact h

theorem Tidy.ensureDirectories (h : w.Tidy) (path : List Char) :
    (w.ensureDirectories path).1.Tidy := by
  fun_induction Workspace.ensureDirectories w path with
  | case1 => exact h
  | case2 => exact h
  | case3 => exact h.ensureDirectory _
  | case4 path fault hentry hpath above e habove ih => exact habove ▸ ih
  | case5 path fault hentry hpath above habove ih =>
    rw [habove] at ih
    exact ih.ensureDirectory _

theorem Tidy.put (h : w.Tidy) (path : String) (content : List UInt8) :
    (w.put path content).Tidy := by
  unfold Workspace.put
  dsimp only
  have hparent : ∀ v, (if (Path.parent path.toList).isEmpty then .ok w
      else w.makeDirectories (Path.parent path.toList)) = .ok v → v.Tidy := by
    intro v hv
    split at hv
    · exact Except.ok.inj hv ▸ h
    · unfold makeDirectories at hv
      have hmade := h.ensureDirectories (Path.parent path.toList)
      split at hv
      case h_1 heq =>
        rw [heq] at hmade
        exact Except.ok.inj hv ▸ hmade
      case h_2 => cases hv
  split
  · exact h
  case h_2 v hv =>
    cases hwrite : v.write path content with
    | error e => exact h
    | ok v' => exact (hparent v hv).write hwrite

end Workspace

end FlowScript
