import FlowScript.Watch.Change
import Mathlib.Data.List.Induction
import Mathlib.Data.List.Nodup
import Mathlib.Tactic.Tauto

/-!
# Batches of changes

Changes arrive between the points where a batch is released. A released batch mentions what was
mentioned since the last release, each file once; whether a file counts as removed depends on its last
mention and on whether it is there. No mention is lost.
-/

namespace FlowScript

/-! ## Signals -/

/-- What happens to a batch: a change arrives, or the batch is released, given which files exist. -/
inductive Signal where
  | change (c : Change)
  | flush (isThere : String → Bool)

/-- A batch after a signal. -/
def Batch.step (b : Batch) : Signal → Batch
  | .change c => b.add c
  | .flush _ => {}

/-- What is released by signals, one list of changes for each release. -/
def Batch.released : Batch → List Signal → List (List Change)
  | _, [] => []
  | b, .change c :: rest => (b.add c).released rest
  | b, .flush isThere :: rest => b.release isThere :: Batch.released {} rest

/-- The changes since the last release. -/
def pending (signals : List Signal) : List Change :=
  signals.foldl (fun changes signal =>
    match signal with
    | .change c => changes ++ [c]
    | .flush _ => []) []

/-- How a change mentions a file: as edited or as removed, if at all. -/
def Change.mention? (path : String) (c : Change) : Option ChangeKind :=
  match c.kind with
  | .edited | .removed => if path ∈ c.paths then some c.kind else none
  | .other _ => none

/-- How some changes last mention a file. -/
def lastMention? (path : String) (changes : List Change) : Option ChangeKind :=
  (changes.filterMap (Change.mention? path)).getLast?

theorem lastMention?_concat (path : String) (changes : List Change) (c : Change) :
    lastMention? path (changes ++ [c]) =
      (c.mention? path).or (lastMention? path changes) := by
  cases h : c.mention? path with
  | none => simp [lastMention?, h]
  | some kind => simp [lastMention?, h]

/-- A file is mentioned as edited or as removed. -/
theorem kind_of_mention? {path : String} {c : Change} {kind : ChangeKind}
    (h : c.mention? path = some kind) : kind = .edited ∨ kind = .removed := by
  unfold Change.mention? at h
  cases hkind : c.kind with
  | edited => simp_all
  | removed => simp_all
  | other code => simp [hkind] at h

theorem kind_of_lastMention? {path : String} {changes : List Change} {kind : ChangeKind}
    (h : lastMention? path changes = some kind) : kind = .edited ∨ kind = .removed := by
  obtain ⟨c, -, hc⟩ := List.mem_filterMap.mp (List.mem_of_getLast? h)
  exact kind_of_mention? hc

/-! ## What a batch holds -/

namespace Batch

theorem mem_insertNew (known paths : List String) (path : String) :
    path ∈ insertNew known paths ↔ path ∈ known ∨ path ∈ paths := by
  unfold insertNew
  induction paths generalizing known with
  | nil => simp
  | cons first rest ih =>
    rw [List.foldl_cons, ih, List.mem_cons]
    by_cases hfirst : first ∈ known
    · rw [if_pos (by simpa using hfirst)]
      constructor
      · rintro (h | h)
        · exact .inl h
        · exact .inr (.inr h)
      · rintro (h | rfl | h)
        · exact .inl h
        · exact .inl hfirst
        · exact .inr h
    · rw [if_neg (by simpa using hfirst), List.mem_append, List.mem_singleton, or_assoc]

theorem nodup_insertNew (known paths : List String) (h : known.Nodup) :
    (insertNew known paths).Nodup := by
  unfold insertNew
  induction paths generalizing known with
  | nil => exact h
  | cons first rest ih =>
    rw [List.foldl_cons]
    apply ih
    by_cases hfirst : first ∈ known
    · rwa [if_pos (by simpa using hfirst)]
    · rw [if_neg (by simpa using hfirst)]
      refine List.nodup_append.mpr ⟨h, List.nodup_singleton _, ?_⟩
      intro a ha b hb
      rw [List.mem_singleton.mp hb]
      exact ne_of_mem_of_not_mem ha hfirst

/-- A batch holds some changes: the files that were last removed, and the edited ones among which
those are that were last edited. -/
structure Holds (b : Batch) (changes : List Change) : Prop where
  nodup_edited : b.edited.Nodup
  nodup_removed : b.removed.Nodup
  removed_iff : ∀ path, path ∈ b.removed ↔ lastMention? path changes = some .removed
  edited_of_last : ∀ path, lastMention? path changes = some .edited → path ∈ b.edited
  mentioned_of_edited : ∀ path ∈ b.edited, lastMention? path changes ≠ none

theorem holds_nil : Holds {} [] := by
  constructor <;> simp [lastMention?]

/-- A batch that takes up a change holds it too. -/
theorem Holds.add {b : Batch} {changes : List Change} (h : Holds b changes) (c : Change) :
    Holds (b.add c) (changes ++ [c]) := by
  obtain ⟨kind, paths⟩ := c
  have hlast := fun path => lastMention?_concat path changes ⟨kind, paths⟩
  cases kind with
  | edited =>
    refine ⟨nodup_insertNew _ _ h.nodup_edited, h.nodup_removed.filter _, ?_, ?_, ?_⟩
    · intro path
      rw [hlast]
      by_cases hp : path ∈ paths <;> simp [Batch.add, Change.mention?, hp, h.removed_iff]
    · intro path
      rw [hlast, Batch.add, mem_insertNew]
      by_cases hp : path ∈ paths
      · exact fun _ => .inr hp
      · simpa [Change.mention?, hp] using h.edited_of_last path
    · intro path
      rw [hlast, Batch.add, mem_insertNew]
      by_cases hp : path ∈ paths
      · simp [Change.mention?, hp]
      · simpa [Change.mention?, hp] using h.mentioned_of_edited path
  | removed =>
    refine ⟨h.nodup_edited, nodup_insertNew _ _ h.nodup_removed, ?_, ?_, ?_⟩
    · intro path
      rw [hlast, Batch.add, mem_insertNew]
      by_cases hp : path ∈ paths <;> simp [Change.mention?, hp, h.removed_iff]
    · intro path
      rw [hlast]
      by_cases hp : path ∈ paths
      · simp [Change.mention?, hp]
      · simpa [Change.mention?, hp, Batch.add] using h.edited_of_last path
    · intro path
      rw [hlast]
      by_cases hp : path ∈ paths
      · simp [Change.mention?, hp]
      · simpa [Change.mention?, hp, Batch.add] using h.mentioned_of_edited path
  | other code =>
    have hsame : ∀ path, lastMention? path (changes ++ [⟨.other code, paths⟩]) =
        lastMention? path changes := fun path => hlast path
    refine ⟨h.nodup_edited, h.nodup_removed, ?_, ?_, ?_⟩ <;> intro path <;> rw [hsame]
    · exact h.removed_iff path
    · exact h.edited_of_last path
    · exact h.mentioned_of_edited path

theorem holds_pending (signals : List Signal) :
    Holds (signals.foldl step {}) (pending signals) := by
  induction signals using List.reverseRecOn with
  | nil => exact holds_nil
  | append_singleton signals signal ih =>
    rw [pending, List.foldl_append, List.foldl_append]
    cases signal with
    | change c => exact ih.add c
    | flush isThere => exact holds_nil

/-! ## What is released -/

/-- A released batch tells of files that some changes mention: of each once, as removed if it was last
removed and is not there, and as edited otherwise. -/
structure Tells (changes : List Change) (isThere : String → Bool) (out : List Change) : Prop where
  once : (out.flatMap Change.paths).Nodup
  mentioned_iff : ∀ path,
    path ∈ out.flatMap Change.paths ↔ lastMention? path changes ≠ none
  removed_iff : ∀ path, (∃ c ∈ out, c.kind = .removed ∧ path ∈ c.paths) ↔
    lastMention? path changes = some .removed ∧ isThere path = false
  edited_iff : ∀ path, (∃ c ∈ out, c.kind = .edited ∧ path ∈ c.paths) ↔
    lastMention? path changes ≠ none ∧
      ¬ (lastMention? path changes = some .removed ∧ isThere path = false)

section Release

variable (b : Batch) (isThere : String → Bool)

/-- The files that a batch tells of as edited. -/
def told : List String :=
  b.removed.filter isThere ++ b.edited.filter (fun path => !b.removed.contains path)

/-- The files that a batch tells of as removed. -/
def gone : List String :=
  b.removed.filter (fun path => !isThere path)

theorem release_eq :
    b.release isThere =
      (if (b.told isThere).isEmpty then [] else [⟨.edited, b.told isThere⟩])
        ++ if (b.gone isThere).isEmpty then [] else [⟨.removed, b.gone isThere⟩] := rfl

theorem paths_release :
    (b.release isThere).flatMap Change.paths = b.told isThere ++ b.gone isThere := by
  rw [release_eq]
  cases h : b.told isThere <;> cases h' : b.gone isThere <;> simp

theorem edited_release (path : String) :
    (∃ c ∈ b.release isThere, c.kind = .edited ∧ path ∈ c.paths) ↔ path ∈ b.told isThere := by
  rw [release_eq]
  cases h : b.told isThere <;> cases h' : b.gone isThere <;> simp

theorem removed_release (path : String) :
    (∃ c ∈ b.release isThere, c.kind = .removed ∧ path ∈ c.paths) ↔ path ∈ b.gone isThere := by
  rw [release_eq]
  cases h : b.told isThere <;> cases h' : b.gone isThere <;> simp

theorem mem_gone (path : String) :
    path ∈ b.gone isThere ↔ path ∈ b.removed ∧ isThere path = false := by
  simp [gone]

theorem mem_told (path : String) :
    path ∈ b.told isThere ↔
      (path ∈ b.edited ∨ path ∈ b.removed) ∧ ¬ (path ∈ b.removed ∧ isThere path = false) := by
  by_cases hr : path ∈ b.removed <;> simp [told, hr]

theorem nodup_told_gone (he : b.edited.Nodup) (hr : b.removed.Nodup) :
    (b.told isThere ++ b.gone isThere).Nodup := by
  have hback : (b.removed.filter isThere).Nodup := hr.filter _
  have hkept : (b.edited.filter (fun path => !b.removed.contains path)).Nodup := he.filter _
  have htold : (b.told isThere).Nodup := by
    refine List.nodup_append'.mpr ⟨hback, hkept, ?_⟩
    intro path hp hq
    simp only [List.mem_filter, Bool.not_eq_true', List.contains_eq_mem,
      decide_eq_false_iff_not] at hp hq
    exact hq.2 hp.1
  refine List.nodup_append'.mpr ⟨htold, hr.filter _, ?_⟩
  intro path hp hq
  exact ((mem_told b isThere path).mp hp).2 ((mem_gone b isThere path).mp hq)

end Release

/-- The edited and removed files of a batch are those that were mentioned. -/
theorem Holds.mentioned_iff {b : Batch} {changes : List Change} (h : Holds b changes)
    (path : String) :
    path ∈ b.edited ∨ path ∈ b.removed ↔ lastMention? path changes ≠ none := by
  constructor
  · rintro (he | hr)
    · exact h.mentioned_of_edited path he
    · rw [(h.removed_iff path).mp hr]
      simp
  · intro hsome
    obtain ⟨kind, hkind⟩ := Option.ne_none_iff_exists'.mp hsome
    rcases kind_of_lastMention? hkind with rfl | rfl
    · exact .inl (h.edited_of_last path hkind)
    · exact .inr ((h.removed_iff path).mpr hkind)

theorem Holds.tells {b : Batch} {changes : List Change} (h : Holds b changes)
    (isThere : String → Bool) : Tells changes isThere (b.release isThere) where
  once := by
    rw [paths_release]
    exact nodup_told_gone b isThere h.nodup_edited h.nodup_removed
  mentioned_iff := by
    intro path
    rw [paths_release, List.mem_append, mem_told, mem_gone, ← h.mentioned_iff path]
    tauto
  removed_iff := by
    intro path
    rw [removed_release, mem_gone, h.removed_iff]
  edited_iff := by
    intro path
    rw [edited_release, mem_told, h.mentioned_iff, h.removed_iff]

/-! ## What signals release -/

theorem released_append (b : Batch) (signals later : List Signal) :
    b.released (signals ++ later) =
      b.released signals ++ (signals.foldl step b).released later := by
  induction signals generalizing b with
  | nil => rfl
  | cons signal rest ih =>
    cases signal with
    | change c => exact ih (b.add c)
    | flush isThere => simp [released, ih, step]

/-- A file that is mentioned is told of at the next release. -/
theorem exists_released (signals later : List Signal) (isThere : String → Bool) (path : String)
    (h : lastMention? path (pending signals) ≠ none) :
    ∃ out ∈ (signals.foldl step {}).released (later ++ [.flush isThere]),
      path ∈ out.flatMap Change.paths := by
  induction later generalizing signals with
  | nil =>
    have htells := (holds_pending signals).tells isThere
    exact ⟨_, by simp [released], (htells.mentioned_iff path).mpr h⟩
  | cons signal rest ih =>
    cases signal with
    | change c =>
      have hstill : lastMention? path (pending (signals ++ [.change c])) ≠ none := by
        have hpending : pending (signals ++ [.change c]) = pending signals ++ [c] := by
          simp [pending]
        rw [hpending, lastMention?_concat]
        cases hc : c.mention? path with
        | none => simpa using h
        | some kind => simp
      have hrest := ih (signals ++ [.change c]) hstill
      rwa [List.foldl_append] at hrest
    | flush isThere' =>
      have htells := (holds_pending signals).tells isThere'
      exact ⟨_, by simp [released], (htells.mentioned_iff path).mpr h⟩

/-- Each release tells exactly of the files that were mentioned since the one before, and each file
that a change mentions is told of by a release after it. -/
theorem released_tells (signals : List Signal) (isThere : String → Bool) :
    (∃ out, Batch.released {} (signals ++ [.flush isThere]) = Batch.released {} signals ++ [out] ∧
      Tells (pending signals) isThere out) ∧
    ∀ before c later path, signals = before ++ .change c :: later → c.mention? path ≠ none →
      ∃ out ∈ (Batch.released {} (signals ++ [.flush isThere])).drop
          (Batch.released {} before).length, path ∈ out.flatMap Change.paths := by
  constructor
  · exact ⟨_, released_append {} signals [.flush isThere], (holds_pending signals).tells isThere⟩
  · intro before c later path hsignals hmention
    have hpending : pending (before ++ [.change c]) = pending before ++ [c] := by simp [pending]
    have hlast : lastMention? path (pending (before ++ [.change c])) ≠ none := by
      obtain ⟨kind, hkind⟩ := Option.ne_none_iff_exists'.mp hmention
      rw [hpending, lastMention?_concat, hkind]
      simp
    obtain ⟨out, hout, hpath⟩ := exists_released (before ++ [.change c]) later isThere path hlast
    refine ⟨out, ?_, hpath⟩
    have hsplit : signals ++ [.flush isThere] =
        before ++ .change c :: (later ++ [.flush isThere]) := by simp [hsignals]
    rw [hsplit, released_append, List.drop_left]
    rwa [List.foldl_append] at hout

/-- A file that is removed, written and removed again is gone. -/
example :
    Batch.released {} [.change ⟨.removed, ["a"]⟩, .change ⟨.edited, ["a", "b"]⟩,
      .change ⟨.removed, ["a"]⟩, .flush (fun _ => false)] =
        [[⟨.edited, ["b"]⟩, ⟨.removed, ["a"]⟩]] := rfl

end Batch

end FlowScript
