import FlowScript.Proofs.Json.Reader
import FlowScript.Proofs.Text.Lines
import FlowScript.Text.Search

/-!
# Control characters in documents

No string and no number of a document holds a control character, so a compact document stays on one
line.

## Main results

- `not_control_of_mem_compact` — no control character stands in a compact document
-/

namespace FlowScript.Json

open Text

/-! ## Control characters -/

theorem not_control_of_hexValue? {c : Char} (h : (hexValue? c).isSome = true) :
    ¬ c.toNat < 0x20 := by
  have hbound : ∀ d : Char, d ≤ c → d.toNat ≤ c.toNat := fun d hd => hd
  unfold hexValue? at h
  simp only [Bool.and_eq_true, decide_eq_true_eq] at h
  split at h
  · next hc => exact Nat.not_lt.mpr (Nat.le_trans (by decide) (hbound _ hc.1))
  · split at h
    · next hc => exact Nat.not_lt.mpr (Nat.le_trans (by decide) (hbound _ hc.1))
    · split at h
      · next hc => exact Nat.not_lt.mpr (Nat.le_trans (by decide) (hbound _ hc.1))
      · cases h

theorem IsBody.not_control {body : List Char} (h : IsBody body) :
    ∀ c ∈ body, ¬ c.toNat < 0x20 := by
  induction h with
  | nil => simp
  | char _ _ hcontrol _ ih => exact List.forall_mem_cons.mpr ⟨hcontrol, ih⟩
  | short hc _ ih =>
    have hshort : shortEscapes.all (fun c => !decide (c.toNat < 0x20)) = true := by decide
    have hc := List.all_eq_true.mp hshort _ hc
    exact List.forall_mem_cons.mpr ⟨by decide, List.forall_mem_cons.mpr ⟨by simpa using hc, ih⟩⟩
  | unit hn _ ih =>
    obtain ⟨ha, hb, hc, hd⟩ := hex4?_eq_some hn
    simp only [List.forall_mem_cons]
    exact ⟨by decide, by decide, not_control_of_hexValue? ha, not_control_of_hexValue? hb,
      not_control_of_hexValue? hc, not_control_of_hexValue? hd, ih⟩

/-- No number starts with a control character or goes on with one. -/
theorem number_of_control {c : Char} (h : c.toNat < 0x20) :
    NumberPhase.start? c = none ∧ ∀ phase : NumberPhase, phase.next? c = none := by
  have hne : ∀ d : Char, 0x20 ≤ d.toNat → c ≠ d := by
    rintro d hd rfl
    omega
  have hdigit : isDigit c = false := by
    have hbound : '0' ≤ c → '0'.toNat ≤ c.toNat := fun hd => hd
    have hzero : ¬ '0' ≤ c := fun hd => absurd (hbound hd) (by simp; omega)
    simp [isDigit, hzero]
  have hsigns : c ≠ '-' ∧ c ≠ '+' ∧ c ≠ '0' ∧ c ≠ '.' ∧ c ≠ 'e' ∧ c ≠ 'E' :=
    ⟨hne _ (by decide), hne _ (by decide), hne _ (by decide), hne _ (by decide), hne _ (by decide),
      hne _ (by decide)⟩
  refine ⟨by simp [NumberPhase.start?, hsigns, hdigit], fun phase => ?_⟩
  cases phase <;> simp [NumberPhase.next?, hsigns, hdigit]

theorem NumberPhase.not_control_of_run {phase last : NumberPhase} {text : List Char}
    (h : phase.run text = some last) : ∀ c ∈ text, ¬ c.toNat < 0x20 := by
  induction text generalizing phase with
  | nil => simp
  | cons c text ih =>
    rw [run] at h
    cases hnext : phase.next? c with
    | none => simp [hnext] at h
    | some next =>
      rw [hnext] at h
      refine List.forall_mem_cons.mpr ⟨fun hc => ?_, ih h⟩
      rw [(number_of_control hc).2 phase] at hnext
      cases hnext

theorem IsNumber.not_control {text : List Char} (h : IsNumber text) :
    ∀ c ∈ text, ¬ c.toNat < 0x20 := by
  obtain ⟨c, rest, phase, last, rfl, hstart, hrun, -⟩ := h
  refine List.forall_mem_cons.mpr ⟨fun hc => ?_, NumberPhase.not_control_of_run hrun⟩
  rw [(number_of_control hc).1] at hstart
  cases hstart

/-! ## Compact documents -/

variable (markup : Markup)

theorem compactItems_eq_glue (items : List Tree) :
    compactItems markup items = glue [','] (items.map (Tree.compact markup)) := by
  induction items with
  | nil => rfl
  | cons item rest ih =>
    cases rest with
    | nil => rfl
    | cons next rest =>
      rw [compactItems, ih]
      · simp [glue]
      · simp

/-- A member without blanks. -/
def memberText (m : List Char × Tree) : List Char :=
  '"' :: (respell markup m.1 ++ '"' :: ':' :: m.2.compact markup)

theorem compactMembers_eq_glue (members : List (List Char × Tree)) :
    compactMembers markup members = glue [','] (members.map (memberText markup)) := by
  induction members with
  | nil => rfl
  | cons m rest ih =>
    cases rest with
    | nil => rfl
    | cons next rest =>
      rw [compactMembers, ih]
      · simp [glue, memberText]
      · simp

variable {markup}

/-- No control character stands in a compact document. -/
theorem not_control_of_mem_compact {t : Tree} (h : t.WellFormed) :
    ∀ c ∈ t.compact markup, ¬ c.toNat < 0x20 := by
  have hglue {pieces : List (List Char)} (hpieces : ∀ piece ∈ pieces, ∀ c ∈ piece, ¬ c.toNat < 0x20) :
      ∀ c ∈ glue [','] pieces, ¬ c.toNat < 0x20 := by
    intro c hc
    rcases mem_glue hc with hc | ⟨piece, hpiece, hc⟩
    · rw [List.mem_singleton.mp hc]
      decide
    · exact hpieces piece hpiece c hc
  induction h with
  | null => simp [Tree.compact]
  | bool b => cases b <;> simp [Tree.compact]
  | number h => exact h.not_control
  | string h =>
    simp only [Tree.compact, List.forall_mem_cons, List.forall_mem_append]
    exact ⟨by decide, (h.respell markup).not_control, by simp⟩
  | array _ ih =>
    simp only [Tree.compact, compactItems_eq_glue, List.forall_mem_cons, List.forall_mem_append]
    exact ⟨by decide, hglue (List.forall_mem_map.mpr ih), by simp⟩
  | object hkeys _ ih =>
    simp only [Tree.compact, compactMembers_eq_glue, List.forall_mem_cons, List.forall_mem_append]
    refine ⟨by decide, hglue (List.forall_mem_map.mpr fun m hm => ?_), by simp⟩
    simp only [memberText, List.forall_mem_cons, List.forall_mem_append]
    exact ⟨by decide, ((hkeys m hm).respell markup).not_control, by decide, by decide, ih m hm⟩

end FlowScript.Json
