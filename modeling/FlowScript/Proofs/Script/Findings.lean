import FlowScript.Proofs.Flow.Issues
import FlowScript.Proofs.Script.Plan

/-!
# Findings about what nodes carry

Whether a node carries what its kind calls for is checked twice, for the structural issues of a flow
and when the nodes are gathered for the script. Both find nothing if the nodes fit and the rows of
their previews are documents.

## Main results

- `not_fits_of_mem_issues` — an issue about a kind or a payload is one of a node that does not fit
- `Placed.complaints_eq_nil` — nothing is found about what a sound node carries
- `not_isOfNode_of_mem_compile` — a flow of sound nodes compiles without complaints about nodes and
  previews
-/

namespace FlowScript

/-! ## Issues -/

/-- The issue is about what a node is or carries. -/
def IssueKind.IsOfNode (k : IssueKind) : Prop :=
  k = .unknownKind ∨ k = .dataKindMismatch

namespace Issue

theorem kind_of_mem_ofPorts {nodeId : String} {seen : List String} {ports : List Port} {i : Issue}
    (hi : i ∈ ofPorts nodeId seen ports) : i.kind = .duplicatePort := by
  induction ports generalizing seen with
  | nil => cases hi
  | cons p rest ih =>
    rw [ofPorts] at hi
    split at hi
    · rcases List.mem_cons.mp hi with rfl | hi
      · rfl
      · exact ih hi
    · exact ih hi

/-- An issue of a node that is about what it is or carries is one of a node that does not fit. -/
theorem not_fits_of_mem_ofNodes {nodeIds portIds : List String} {nodes : List Node} {i : Issue}
    (hi : i ∈ ofNodes nodeIds portIds nodes) (hkind : i.kind.IsOfNode) :
    ∃ n ∈ nodes, ¬ n.Fits := by
  induction nodes generalizing nodeIds portIds with
  | nil => cases hi
  | cons n rest ih =>
    rw [ofNodes, List.mem_append, List.mem_append, List.mem_append] at hi
    rcases hi with ((hi | hi) | hi) | hi
    · have hsame : i.kind = .duplicateNode := by
        unfold ofRepeatedId at hi
        split at hi
        · rw [List.mem_singleton.mp hi]
        · cases hi
      rcases hkind with h | h <;> rw [hsame] at h <;> cases h
    · refine ⟨n, List.mem_cons_self, fun hfits => ?_⟩
      rw [ofKind_eq_nil_iff.mpr hfits] at hi
      cases hi
    · rcases hkind with h | h <;> rw [kind_of_mem_ofPorts hi] at h <;> cases h
    · obtain ⟨m, hm, hfits⟩ := ih hi
      exact ⟨m, List.mem_cons_of_mem _ hm, hfits⟩

/-- No issue of a connection is about what a node is or carries. -/
theorem not_isOfNode_of_mem_ofConnections {f : Flow} {taken : List (String × String)}
    {connections : List Connection} {i : Issue} (hi : i ∈ ofConnections f taken connections) :
    ¬ i.kind.IsOfNode := by
  induction connections generalizing taken with
  | nil => cases hi
  | cons c rest ih =>
    rw [ofConnections] at hi
    split at hi
    · next source target _ _ =>
      rcases List.mem_append.mp hi with hi | hi
      · unfold ofSource at hi
        split at hi
        · cases hi
        · rw [List.mem_singleton.mp hi]
          dsimp only
          split <;> simp [IssueKind.IsOfNode]
      · split at hi
        · rcases List.mem_cons.mp hi with rfl | hi
          · dsimp only
            split <;> simp [IssueKind.IsOfNode]
          · exact ih hi
        · split at hi
          · rcases List.mem_cons.mp hi with rfl | hi
            · simp [IssueKind.IsOfNode]
            · exact ih hi
          · exact ih hi
    · rcases List.mem_cons.mp hi with rfl | hi
      · simp [IssueKind.IsOfNode]
      · exact ih hi

end Issue

/-- An issue about what a node is or carries is one of a node that does not fit. -/
theorem not_fits_of_mem_issues {f : Flow} {i : Issue} (hi : i ∈ f.issues)
    (hkind : i.kind.IsOfNode) : ∃ n ∈ f.liveNodes, ¬ n.Fits := by
  rcases List.mem_append.mp hi with hi | hi
  · exact Issue.not_fits_of_mem_ofNodes hi hkind
  · exact absurd hkind (Issue.not_isOfNode_of_mem_ofConnections hi)

/-! ## Gathering -/

/-- A node that fits, and the rows that are read from it are a document. -/
structure Node.Sound (n : Node) : Prop where
  fits : n.Fits
  rows : ∀ d ∈ n.file?, ∀ rows ∈ Script.rowsOf? d, ∃ t, Json.parse rows = .ok t

/-- The finding is about what a node carries. -/
def DiagnosticCode.IsOfNode (c : DiagnosticCode) : Prop :=
  c = .invalidNode ∨ c = .invalidPreview

namespace Script

/-- The node does not carry what its kind calls for. -/
def Lacks (n : Node) : Prop :=
  match n.kind with
  | .function => n.function? = none
  | .csvInput | .excelInput => n.file? = none
  | .subFlow => n.subFlow? = none
  | .output => n.output? = none
  | .other _ => True

/-- A node that fits and does not carry what its kind calls for carries nothing. -/
theorem mismatchNotes_eq_nil {n : Node} (h : n.Fits) (hlacks : Lacks n) : mismatchNotes n = [] := by
  unfold mismatchNotes
  cases hp : n.payload with
  | none => rfl
  | some p =>
    have hcarries := h.2
    unfold Node.carriesFitting at hcarries
    unfold Lacks at hlacks
    cases hkind : n.kind <;> simp [hp, hkind] at hcarries hlacks <;> simp [hlacks] at hcarries

namespace Placed

variable {p : Placed}

theorem complaints_of_lacks (hk : p.node.kind.isSupported = true) (h : Lacks p.node) :
    p.complaints = mismatchNotes p.node := by
  unfold complaints
  unfold Lacks at h
  cases hkind : p.node.kind <;> simp_all [NodeKind.isSupported]

theorem complaints_of_not_lacks (hk : p.node.kind.isSupported = true) (h : ¬ Lacks p.node) :
    p.complaints = if p.node.kind.isTabular then p.previewNotes else [] := by
  unfold complaints
  unfold Lacks at h
  cases hkind : p.node.kind <;>
    simp_all [NodeKind.isSupported, NodeKind.isTabular, Option.isSome_iff_ne_none]

theorem previewNotes_eq_nil (h : p.node.Sound) : p.previewNotes = [] := by
  unfold previewNotes
  cases hf : p.node.file? with
  | none => rfl
  | some file =>
    cases hr : rowsOf? file with
    | none => simp [hr]
    | some rows =>
      obtain ⟨t, ht⟩ := h.rows file hf rows hr
      simp [hr, ht]

/-- Nothing is found about what a sound node carries. -/
theorem complaints_eq_nil (h : p.node.Sound) : p.complaints = [] := by
  by_cases hlacks : Lacks p.node
  · rw [complaints_of_lacks h.fits.1 hlacks, mismatchNotes_eq_nil h.fits hlacks]
  · rw [complaints_of_not_lacks h.fits.1 hlacks, previewNotes_eq_nil h, ite_self]

theorem not_isOfNode_of_mem_notes (h : p.node.Sound) {known : List Definition} {d : Diagnostic}
    (hd : d ∈ p.notes known) : ¬ d.code.IsOfNode := by
  rw [notes, complaints_eq_nil h, List.nil_append] at hd
  rcases List.mem_append.mp hd with hd | hd
  · simp [code_of_mem_missing hd, DiagnosticCode.IsOfNode]
  · simp [code_of_mem_redefinition hd, DiagnosticCode.IsOfNode]

end Placed

/-- Ordering the nodes finds dangling connections and cycles only. -/
theorem code_of_mem_ordering {g : Graph} {d : Diagnostic}
    (hd : d ∈ (Ordering.ofGraph g).diagnostics) :
    d.code = .danglingConnection ∨ d.code = .cycle ∨ d.code = .blockedByCycle := by
  have hdangling : ∀ d ∈ g.dangling.map danglingNote, d.code = .danglingConnection := by
    intro d hd
    obtain ⟨c, -, rfl⟩ := List.mem_map.mp hd
    rfl
  unfold Ordering.ofGraph at hd
  split at hd
  · exact .inl (hdangling d hd)
  · rcases List.mem_append.mp hd with hd | hd
    · exact .inl (hdangling d hd)
    · rcases List.mem_cons.mp hd with rfl | hd
      · exact .inr (.inl rfl)
      · obtain ⟨n, -, rfl⟩ := List.mem_map.mp hd
        exact .inr (.inr rfl)

/-- Ordering the nodes finds nothing about what they carry. -/
theorem not_isOfNode_of_mem_ordering {g : Graph} {d : Diagnostic}
    (hd : d ∈ (Ordering.ofGraph g).diagnostics) : ¬ d.code.IsOfNode := by
  rcases code_of_mem_ordering hd with h | h | h <;> simp [h, DiagnosticCode.IsOfNode]

/-- The inputs of a node have nothing to do with what it carries. -/
theorem not_isOfNode_of_mem_inputNotes {f : Flow} {c : Collected} {p : Placed} {d : Diagnostic}
    (hd : d ∈ inputNotes f c p) : ¬ d.code.IsOfNode := by
  unfold inputNotes at hd
  split at hd
  · obtain ⟨port, -, rfl⟩ := List.mem_map.mp hd
    simp [DiagnosticCode.IsOfNode]
  · cases hd

end Script

open Script

/-- Compiling a flow of sound nodes finds nothing about what they carry, whatever the clock says. -/
theorem not_isOfNode_of_mem_compile {f : Flow} (h : ∀ n ∈ f.liveNodes, n.Sound) {clock : Clock}
    {d : Diagnostic} (hd : d ∈ (f.compile clock).1.diagnostics) : ¬ d.code.IsOfNode := by
  cases clock with
  | error reason => cases hd
  | ok now =>
    have hplaced : ∀ p ∈ (Plan.ofFlow f).nodes, p.node.Sound := by
      intro p hp
      exact h p.node (List.mem_of_getElem? (Plan.node_at hp))
    rcases List.mem_append.mp hd with hd | hd
    · rcases List.mem_append.mp hd with hd | hd
      · exact not_isOfNode_of_mem_ordering hd
      · have hgathered : d ∈ (collect (Plan.ofFlow f).nodes).diagnostics := hd
        rw [collect_diagnostics] at hgathered
        obtain ⟨p, hp, known, hnotes⟩ := exists_of_mem_gatheringNotes hgathered
        exact Placed.not_isOfNode_of_mem_notes (hplaced p hp) hnotes
    · obtain ⟨p, -, hp⟩ := List.mem_flatMap.mp hd
      exact not_isOfNode_of_mem_inputNotes hp

end FlowScript
