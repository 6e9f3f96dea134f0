import FlowScript.Proofs.Text.Lines
import FlowScript.Proofs.Workspace.Places

/-!
# Paths inside directories

The path of a name inside a directory is shortened before it is used. It still leads to that name in
the directory, because a path that leads somewhere went through directories only, so that going up
undoes going down.

## Main definitions

- `IsName` — a name that a file can have
- `Path.folder` — the segments in front of a name inside a directory

## Main results

- `Path.splitAt_join` — the segments of a path inside a directory
- `Workspace.follow_folder` — the shortened segments lead where the directory is
- `Workspace.Leads.join` — a path inside a directory leads to the name there
-/

namespace FlowScript

/-- A name that a file can have. -/
def IsName (name : String) : Prop :=
  (name ≠ "" ∧ name ≠ "." ∧ name ≠ "..") ∧ '/' ∉ name.toList ∧ '\x00' ∉ name.toList

instance (name : String) : Decidable (IsName name) :=
  inferInstanceAs (Decidable (_ ∧ _))

namespace Path

open Text

/-! ## Settled segments -/

variable {rooted : Bool} {segments : List (List Char)} {segment : List Char}

/-- A segment that names something. -/
def Names (segment : List Char) : Prop :=
  segment ≠ [] ∧ segment ≠ ['.'] ∧ segment ≠ ['.', '.']

theorem settle_concat_still (h : segment = [] ∨ segment = ['.']) :
    settle rooted (segments ++ [segment]) = settle rooted segments := by
  rcases h with rfl | rfl <;> simp [settle]

theorem settle_concat_name (h : Names segment) :
    settle rooted (segments ++ [segment]) = settle rooted segments ++ [segment] := by
  obtain ⟨hempty, hdot, hdots⟩ := h
  simp [settle, hempty, hdot, hdots]

theorem settle_concat_up_start (h : settle rooted segments = []) :
    settle rooted (segments ++ [['.', '.']]) = if rooted then [] else [['.', '.']] := by
  simp only [settle, List.reverse_eq_nil_iff] at h
  simp only [settle, List.foldl_append, h]
  cases rooted <;> rfl

theorem settle_concat_up {last : List Char} {rest : List (List Char)}
    (h : settle rooted segments = rest ++ [last]) :
    settle rooted (segments ++ [['.', '.']]) =
      if last = ['.', '.'] then settle rooted segments ++ [['.', '.']] else rest := by
  have hdone := h
  simp only [settle, List.reverse_eq_append_iff, List.reverse_singleton, List.singleton_append]
    at hdone
  rw [h]
  simp only [settle, List.foldl_append, hdone]
  by_cases hlast : last = ['.', '.'] <;> simp [hlast]

/-- Settled segments are segments of the path, and they name something or lead up. -/
theorem mem_settle (h : segment ∈ settle rooted segments) :
    segment ∈ segments ∧ segment ≠ [] ∧ segment ≠ ['.'] := by
  induction segments using List.reverseRecOn with
  | nil => simp [settle] at h
  | append_singleton segments last ih =>
    have hkept : segment ∈ settle rooted segments →
        segment ∈ segments ++ [last] ∧ segment ≠ [] ∧ segment ≠ ['.'] :=
      fun h => ⟨List.mem_append_left _ (ih h).1, (ih h).2⟩
    by_cases hstill : last = [] ∨ last = ['.']
    · rw [settle_concat_still hstill] at h
      exact hkept h
    · obtain ⟨hempty, hdot⟩ := not_or.mp hstill
      by_cases hup : last = ['.', '.']
      · subst hup
        have hnew : segment ∈ [['.', '.']] →
            segment ∈ segments ++ [['.', '.']] ∧ segment ≠ [] ∧ segment ≠ ['.'] := by
          intro h
          obtain rfl := List.mem_singleton.mp h
          exact ⟨List.mem_append_right _ h, hempty, hdot⟩
        rcases List.eq_nil_or_concat (settle rooted segments) with hsettled | ⟨rest, final, hsettled⟩
        · rw [settle_concat_up_start hsettled] at h
          cases rooted with
          | true => cases h
          | false => exact hnew h
        · rw [List.concat_eq_append] at hsettled
          rw [settle_concat_up hsettled] at h
          split at h
          · exact (List.mem_append.mp h).elim hkept hnew
          · exact hkept (hsettled ▸ List.mem_append_left _ h)
      · rw [settle_concat_name ⟨hempty, hdot, hup⟩] at h
        rcases List.mem_append.mp h with h | h
        · exact hkept h
        · obtain rfl := List.mem_singleton.mp h
          exact ⟨List.mem_append_right _ h, hempty, hdot⟩

/-! ## Paths inside a directory -/

/-- A path starts at the root. -/
def isRooted (path : String) : Bool :=
  path.toList.head? == some '/'

/-- The segments in front of a name inside a directory. -/
def folder (dir : String) : List String :=
  (if isRooted dir then [""] else [])
    ++ (settle (isRooted dir) (cut '/' dir.toList)).map String.ofList

variable {dir name : String}

theorem names_of_isName (h : IsName name) : Names name.toList := by
  obtain ⟨⟨hempty, hdot, hdots⟩, -⟩ := h
  refine ⟨?_, ?_, ?_⟩
  · simpa using hempty
  · exact fun heq => hdot (String.toList_inj.mp heq)
  · exact fun heq => hdots (String.toList_inj.mp heq)

/-- The segments of a path that a name was put behind. -/
theorem cut_append_name (hname : IsName name) :
    cut '/' (dir.toList ++ '/' :: name.toList) = cut '/' dir.toList ++ [name.toList] := by
  have hone : cut '/' (glue ['/'] [name.toList]) = [name.toList] :=
    cut_glue (by simp) (by simpa using hname.2.1)
  rw [cut, cutWhere_append_sep (by simp)]
  exact congrArg (cut '/' dir.toList ++ ·) hone

/-- The settled segments of a directory, with a name behind them. -/
theorem cut_glue_settle (hname : IsName name) :
    cut '/' (glue ['/'] (settle rooted (cut '/' dir.toList) ++ [name.toList])) =
      settle rooted (cut '/' dir.toList) ++ [name.toList] := by
  refine cut_glue (by simp) ?_
  intro piece hpiece
  rcases List.mem_append.mp hpiece with h | h
  · intro hslash
    simpa using cutWhere_free (mem_settle h).1 '/' hslash
  · obtain rfl := List.mem_singleton.mp h
    exact hname.2.1

/-- The characters of a path inside a directory. -/
theorem toList_join (hdir : dir ≠ "") (hname : IsName name) :
    (join dir name).toList =
      (if isRooted dir then ['/'] else [])
        ++ glue ['/'] (settle (isRooted dir) (cut '/' dir.toList) ++ [name.toList]) := by
  have hempty : dir.isEmpty = false := by simpa using hdir
  have hne : dir.toList ≠ [] := by simpa using hdir
  have hhead : ((dir.toList ++ '/' :: name.toList).head? == some '/') = isRooted dir := by
    rw [List.head?_append_of_ne_nil _ hne]
    rfl
  have hbody : glue ['/'] (settle (isRooted dir) (cut '/' dir.toList) ++ [name.toList]) ≠ [] := by
    intro hnil
    have hmem : name.toList.head? = none := by
      refine List.head?_eq_none_iff.mpr (List.eq_nil_iff_forall_not_mem.mpr ?_)
      intro c hc
      have hglued : c ∈ glue ['/']
          (settle (isRooted dir) (cut '/' dir.toList) ++ [name.toList]) :=
        mem_glue_of_mem (List.mem_append_right _ (List.mem_singleton_self _)) hc
      rw [hnil] at hglued
      cases hglued
    exact (names_of_isName hname).1 (List.head?_eq_none_iff.mp hmem)
  rw [join, hempty, if_neg Bool.false_ne_true, String.toList_ofList, clean]
  simp only [hhead, cut_append_name hname, settle_concat_name (names_of_isName hname),
    List.isEmpty_eq_false_iff.mpr hbody]
  cases isRooted dir <;> rfl

/-- The segments of a path inside a directory. -/
theorem splitAt_join (hdir : dir ≠ "") (hname : IsName name) :
    splitAt '/' (join dir name) = folder dir ++ [name] := by
  have hcut : ∀ rooted, cut '/' ((if rooted then ['/'] else [])
      ++ glue ['/'] (settle rooted (cut '/' dir.toList) ++ [name.toList])) =
        (if rooted then [[]] else []) ++ (settle rooted (cut '/' dir.toList) ++ [name.toList]) := by
    intro rooted
    cases rooted with
    | true =>
      rw [if_pos rfl, if_pos rfl, List.singleton_append, cut, cutWhere_cons_sep (by simp)]
      exact congrArg ([] :: ·) (cut_glue_settle hname)
    | false => exact cut_glue_settle hname
  rw [splitAt, toList_join hdir hname, hcut, folder]
  cases isRooted dir <;> simp

theorem isRooted_join (hdir : dir ≠ "") (hname : IsName name) :
    isRooted (join dir name) = isRooted dir := by
  rw [isRooted, toList_join hdir hname]
  cases isRooted dir with
  | true => rfl
  | false =>
    rw [if_neg Bool.false_ne_true, List.nil_append]
    have hcut : cut '/' (glue ['/'] (settle false (cut '/' dir.toList) ++ [name.toList])) =
        settle false (cut '/' dir.toList) ++ [name.toList] := cut_glue_settle hname
    cases hbody : glue ['/'] (settle false (cut '/' dir.toList) ++ [name.toList]) with
    | nil => rfl
    | cons c cs =>
      refine beq_eq_false_iff_ne.mpr ?_
      rintro h
      obtain rfl : c = '/' := Option.some.inj h
      rw [hbody, cut, cutWhere_cons_sep (by simp)] at hcut
      -- a slash in front would make the first segment empty
      have hmem : [] ∈ settle false (cut '/' dir.toList) ++ [name.toList] :=
        hcut ▸ List.mem_cons_self
      rcases List.mem_append.mp hmem with h | h
      · exact (mem_settle h).2.1 rfl
      · exact (names_of_isName hname).1 (List.mem_singleton.mp h).symm

theorem start_join (hdir : dir ≠ "") (hname : IsName name) :
    Workspace.start (join dir name) = Workspace.start dir :=
  congrArg (fun rooted : Bool => if rooted then Workspace.root else []) (isRooted_join hdir hname)

theorem mem_join (hdir : dir ≠ "") (hname : IsName name) {c : Char}
    (h : c ∈ (join dir name).toList) : c = '/' ∨ c ∈ dir.toList ∨ c ∈ name.toList := by
  rw [toList_join hdir hname] at h
  rcases List.mem_append.mp h with h | h
  · refine .inl ?_
    split at h
    · exact List.mem_singleton.mp h
    · cases h
  · rcases mem_glue h with h | ⟨piece, hpiece, hc⟩
    · exact .inl (List.mem_singleton.mp h)
    · rcases List.mem_append.mp hpiece with hpiece | hpiece
      · have hmem : c ∈ glue ['/'] (cut '/' dir.toList) := mem_glue_of_mem (mem_settle hpiece).1 hc
        rw [glue_cut] at hmem
        exact .inr (.inl hmem)
      · exact .inr (.inr (List.mem_singleton.mp hpiece ▸ hc))

theorem checked_eq_ok_iff {path : String} :
    Workspace.checked path = .ok () ↔ '\x00' ∉ path.toList ∧ path ≠ "" := by
  unfold Workspace.checked
  by_cases hzero : '\x00' ∈ path.toList <;> by_cases hempty : path = "" <;> simp [hzero, hempty]

theorem checked_join (hdir : Workspace.checked dir = .ok ()) (hname : IsName name) :
    Workspace.checked (join dir name) = .ok () := by
  obtain ⟨hzero, hne⟩ := checked_eq_ok_iff.mp hdir
  refine checked_eq_ok_iff.mpr ⟨?_, ?_⟩
  · intro h
    rcases mem_join hne hname h with h | h | h
    · cases h
    · exact hzero h
    · exact hname.2.2 h
  · intro h
    have hsplit := splitAt_join hne hname
    rw [h] at hsplit
    have hmem : name ∈ splitAt '/' "" := hsplit ▸ List.mem_append_right _ (List.mem_singleton_self name)
    exact hname.1.1 (List.mem_singleton.mp hmem)

end Path

namespace Workspace

variable {w w' : Workspace} {p q : Location}

/-! ## Going up undoes going down -/

theorem step_still {segment : String} (h : w.step p segment = .ok q)
    (hsegment : segment = "" ∨ segment = ".") : q = p := by
  have hp := directory_of_step h
  have hstay : w.step p segment = .ok p := by
    rcases hsegment with rfl | rfl <;> simp [step, hp]
  exact Except.ok.inj (h.symm.trans hstay)

theorem step_up (h : w.step p ".." = .ok q) : q = if p = root then root else p.dropLast := by
  have hp := directory_of_step h
  have hup : w.step p ".." = .ok (if p = root then root else p.dropLast) := by
    simp only [step, hp]
    rfl
  exact Except.ok.inj (h.symm.trans hup)

theorem step_name {segment : String} (h : w.step p segment = .ok q) (hempty : segment ≠ "")
    (hdot : segment ≠ ".") (hdots : segment ≠ "..") : q = p ++ [segment] := by
  have hp := directory_of_step h
  simp only [step, hp, hdot, hdots, or_false, if_false, Bool.or_eq_true, String.isEmpty_iff, hempty,
    decide_eq_true_eq] at h
  split at h
  · cases h
  · exact (Except.ok.inj h).symm

/-- Where a path starts. -/
def base (rooted : Bool) : Location :=
  if rooted then root else []

theorem step_base_up (rooted : Bool) (h : w.step (base rooted) ".." = .ok q) : q = base rooted := by
  rw [step_up h]
  cases rooted <;> rfl

/-- The text of a segment that names something is no empty text and no dots. -/
theorem ofList_ne_of_names {segment : List Char} (h : Path.Names segment) :
    String.ofList segment ≠ "" ∧ String.ofList segment ≠ "." ∧ String.ofList segment ≠ ".." := by
  obtain ⟨hempty, hdot, hdots⟩ := h
  refine ⟨fun heq => hempty ?_, fun heq => hdot ?_, fun heq => hdots ?_⟩
  all_goals simpa using congrArg String.toList heq

/-- Settled segments lead where the segments lead. -/
theorem follow_settle {rooted : Bool} {segments : List (List Char)}
    (hfree : ∀ segment ∈ segments, '/' ∉ segment)
    (h : w.follow (base rooted) (segments.map String.ofList) = .ok p) :
    w.follow (base rooted) ((Path.settle rooted segments).map String.ofList) = .ok p := by
  induction segments using List.reverseRecOn generalizing p with
  | nil => exact h
  | append_singleton segments segment ih =>
    rw [List.map_append, List.map_singleton] at h
    obtain ⟨r, hr, hstep⟩ := follow_concat_eq_ok_iff.mp h
    have hsettled := ih (fun s hs => hfree s (List.mem_append_left _ hs)) hr
    by_cases hstill : segment = [] ∨ segment = ['.']
    · rw [Path.settle_concat_still hstill, step_still hstep]
      · exact hsettled
      · exact hstill.imp (congrArg String.ofList) (congrArg String.ofList)
    obtain ⟨hempty, hdot⟩ := not_or.mp hstill
    by_cases hup : segment = ['.', '.']
    · subst hup
      rcases List.eq_nil_or_concat (Path.settle rooted segments) with hnil | ⟨rest, last, hlast⟩
      · -- above the start
        rw [hnil] at hsettled
        obtain rfl : base rooted = r := Except.ok.inj hsettled
        rw [Path.settle_concat_up_start hnil]
        cases rooted with
        | true => exact congrArg Except.ok (step_base_up true hstep).symm
        | false => exact follow_concat_eq_ok_iff.mpr ⟨_, follow_nil w _, hstep⟩
      · rw [List.concat_eq_append] at hlast
        rw [Path.settle_concat_up hlast]
        rw [hlast, List.map_append, List.map_singleton] at hsettled
        split
        case isTrue hdots =>
          rw [hlast, List.map_append, List.map_singleton, List.map_append, List.map_singleton]
          exact follow_concat_eq_ok_iff.mpr ⟨r, hsettled, hstep⟩
        case isFalse hdots =>
          -- the last name leads down, and the dots lead up from there again
          obtain ⟨above, habove, hdown⟩ := follow_concat_eq_ok_iff.mp hsettled
          have hmem : last ∈ Path.settle rooted segments := hlast ▸ List.mem_append_right _ (by simp)
          obtain ⟨hsegment, hne, hne'⟩ := Path.mem_settle hmem
          obtain ⟨h1, h2, h3⟩ := ofList_ne_of_names ⟨hne, hne', hdots⟩
          have hr' := step_name hdown h1 h2 h3
          have hroot : r ≠ root := by
            rw [hr']
            intro heq
            have hslash : String.ofList last = "/" := by
              have hlast' := congrArg List.getLast? heq
              simpa [root] using hlast'
            refine hfree last (List.mem_append_left _ hsegment) ?_
            rw [show last = ['/'] by simpa using congrArg String.toList hslash]
            exact List.mem_singleton_self '/'
          rw [step_up hstep, if_neg hroot, hr', List.dropLast_concat]
          exact habove
    · rw [Path.settle_concat_name ⟨hempty, hdot, hup⟩, List.map_append, List.map_singleton]
      exact follow_concat_eq_ok_iff.mpr ⟨r, hsettled, hstep⟩

/-- The shortened segments of a directory lead where its path leads. -/
theorem follow_folder {dir : String} (h : w.Leads dir p) :
    w.follow (start dir) (Path.folder dir) = .ok p := by
  have hfree : ∀ segment ∈ Text.cut '/' dir.toList, '/' ∉ segment := by
    intro segment hsegment hslash
    simpa using Text.cutWhere_free hsegment '/' hslash
  have hsettled : w.follow (start dir)
      ((Path.settle (Path.isRooted dir) (Text.cut '/' dir.toList)).map String.ofList) = .ok p :=
    follow_settle hfree h.follow
  have hstart : w.at? (start dir) = some .directory :=
    directory_of_follow (by simp [splitAt, Text.cut, Text.cutWhere_ne_nil]) h.follow
  have hstay : w.step (start dir) "" = .ok (start dir) := by simp [step, hstart]
  rw [Path.folder]
  split
  · rw [List.singleton_append, follow_cons, hstay]
    exact hsettled
  · exact hsettled

theorem step_eq_of_isName {name : String} (hp : w.at? p = some .directory) (hname : IsName name) :
    w.step p name =
      if nameLimit < name.utf8ByteSize then .error .nameTooLong else .ok (p ++ [name]) := by
  obtain ⟨⟨hempty, hdot, hdots⟩, -⟩ := hname
  simp only [step, hp, hdot, hdots, or_false, if_false, Bool.or_eq_true, String.isEmpty_iff, hempty,
    decide_eq_true_eq]

/-- A path inside a directory leads to the name there. -/
theorem Leads.join {dir name : String} (h : w.Leads dir p) (hp : w.at? p = some .directory)
    (hname : IsName name) (hsize : name.utf8ByteSize ≤ nameLimit) :
    w.Leads (Path.join dir name) (p ++ [name]) := by
  have hne := (Path.checked_eq_ok_iff.mp h.checked).2
  refine ⟨Path.checked_join h.checked hname, ?_⟩
  rw [Path.splitAt_join hne hname, Path.start_join hne hname]
  refine follow_concat_eq_ok_iff.mpr ⟨p, follow_folder h, ?_⟩
  rw [step_eq_of_isName hp hname, if_neg (Nat.not_lt.mpr hsize)]

end Workspace

end FlowScript
