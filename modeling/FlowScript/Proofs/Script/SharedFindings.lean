import FlowScript.Proofs.Script.Dangling
import FlowScript.Proofs.Script.Findings

/-!
# Findings that are made twice

Connections that name a missing node, and nodes that are or carry the wrong thing, are found twice:
among the issues of a flow, in flow order, and by the compiler, in the order of the blocks. The two
share no code and find the same.

## Main definitions

- `Node.misfits` — the id of a node that is or carries the wrong thing

## Main results

- `strayIds_issues`, `strayIds_compileAt` — the connections that either of them finds
- `misfitIds_issues`, `invalidIds_collect` — the nodes that either of them finds
- `ordering_notes`, `gathering_notes` — the code of a finding tells which part of a compilation made it
- `findings_agree` — both find the same connections, in the same order, and the same nodes
-/

namespace FlowScript

/-- A node fits or not, which can be told. -/
instance (n : Node) : Decidable n.Fits :=
  inferInstanceAs (Decidable (_ ∧ _))

/-- The id of a node of an unsupported kind or with a payload of the wrong variant, and nothing for
any other node. -/
def Node.misfits (n : Node) : List String :=
  if n.Fits then [] else [n.id]

theorem Node.misfits_of_fits {n : Node} (h : n.Fits) : n.misfits = [] :=
  if_pos h

/-! ## Among the issues -/

namespace Issue

/-- The connections that issues find without a node at some end. -/
def strayIds (issues : List Issue) : List String :=
  (issues.filter (fun i => i.kind = .danglingNode)).map (·.connectionId)

/-- The nodes that issues find to be, or to carry, the wrong thing. -/
def misfitIds (issues : List Issue) : List String :=
  (issues.filter (fun i => i.kind = .unknownKind ∨ i.kind = .dataKindMismatch)).map (·.nodeId)

theorem strayIds_append (as bs : List Issue) :
    strayIds (as ++ bs) = strayIds as ++ strayIds bs := by
  simp [strayIds]

theorem misfitIds_append (as bs : List Issue) :
    misfitIds (as ++ bs) = misfitIds as ++ misfitIds bs := by
  simp [misfitIds]

theorem strayIds_eq_nil {issues : List Issue} (h : ∀ i ∈ issues, i.kind ≠ .danglingNode) :
    strayIds issues = [] := by
  simpa [strayIds, List.filter_eq_nil_iff] using h

theorem misfitIds_eq_nil {issues : List Issue} (h : ∀ i ∈ issues, ¬ i.kind.IsOfNode) :
    misfitIds issues = [] := by
  simpa [misfitIds, List.filter_eq_nil_iff, IssueKind.IsOfNode] using h

theorem kind_of_mem_ofRepeatedId {n : Node} {seen : List String} {i : Issue}
    (hi : i ∈ ofRepeatedId n seen) : i.kind = .duplicateNode := by
  unfold ofRepeatedId at hi
  split at hi
  · rw [List.mem_singleton.mp hi]
  · cases hi

theorem misfitIds_ofKind (n : Node) : misfitIds (ofKind n) = n.misfits := by
  unfold ofKind Node.misfits Node.Fits
  by_cases hk : n.kind.isSupported = true <;> by_cases hc : n.carriesFitting = true <;>
    simp [hk, hc, misfitIds]

theorem kind_of_mem_ofKind {n : Node} {i : Issue} (hi : i ∈ ofKind n) : i.kind.IsOfNode := by
  unfold ofKind at hi
  split at hi
  · rw [List.mem_singleton.mp hi]
    exact .inl rfl
  · split at hi
    · rw [List.mem_singleton.mp hi]
      exact .inr rfl
    · cases hi

/-- The issues of the nodes find the nodes that do not fit, in flow order. -/
theorem misfitIds_ofNodes (nodeIds portIds : List String) (nodes : List Node) :
    misfitIds (ofNodes nodeIds portIds nodes) = nodes.flatMap Node.misfits := by
  induction nodes generalizing nodeIds portIds with
  | nil => rfl
  | cons n rest ih =>
    have hrepeated : misfitIds (ofRepeatedId n nodeIds) = [] := by
      refine misfitIds_eq_nil ?_
      intro i hi
      simp [IssueKind.IsOfNode, kind_of_mem_ofRepeatedId hi]
    have hports : misfitIds (ofPorts n.id portIds n.ports) = [] := by
      refine misfitIds_eq_nil ?_
      intro i hi
      simp [IssueKind.IsOfNode, kind_of_mem_ofPorts hi]
    rw [ofNodes, misfitIds_append, misfitIds_append, misfitIds_append, hrepeated, hports,
      misfitIds_ofKind, ih, List.nil_append, List.append_nil, List.flatMap_cons]

/-- No issue of a node is about a connection. -/
theorem strayIds_ofNodes (nodeIds portIds : List String) (nodes : List Node) :
    strayIds (ofNodes nodeIds portIds nodes) = [] := by
  induction nodes generalizing nodeIds portIds with
  | nil => rfl
  | cons n rest ih =>
    rw [ofNodes, strayIds_append, ih, List.append_nil]
    refine strayIds_eq_nil ?_
    intro i hi
    rw [List.mem_append, List.mem_append] at hi
    rcases hi with (hi | hi) | hi
    · simp [kind_of_mem_ofRepeatedId hi]
    · rcases kind_of_mem_ofKind hi with h | h <;> simp [h]
    · simp [kind_of_mem_ofPorts hi]

theorem strayIds_ofSource (source : Node) (c : Connection) : strayIds (ofSource source c) = [] := by
  refine strayIds_eq_nil ?_
  intro i hi
  unfold ofSource at hi
  split at hi
  · cases hi
  · rw [List.mem_singleton.mp hi]
    dsimp only
    split <;> simp

/-- The issues of the connections find those without a node at some end, in flow order. -/
theorem strayIds_ofConnections (f : Flow) (taken : List (String × String))
    (wires : List Connection) :
    strayIds (ofConnections f taken wires) = (wires.filter f.isDangling).map (·.id) := by
  induction wires generalizing taken with
  | nil => rfl
  | cons c rest ih =>
    have hskip : ∀ i : Issue, i.kind ≠ .danglingNode → ∀ taken,
        strayIds (i :: ofConnections f taken rest) = (rest.filter f.isDangling).map (·.id) := by
      intro i hi taken
      rw [← ih taken]
      simp [strayIds, hi]
    unfold ofConnections
    cases hs : f.node? c.sourceNode with
    | none => simp [strayIds, ← ih taken, Flow.isDangling, Flow.hasNode, hs]
    | some source =>
      cases ht : f.node? c.targetNode with
      | none => simp [strayIds, ← ih taken, Flow.isDangling, Flow.hasNode, hs, ht]
      | some target =>
        have hlive : f.isDangling c = false := by simp [Flow.isDangling, Flow.hasNode, hs, ht]
        simp only [strayIds_append, strayIds_ofSource, List.nil_append, List.filter_cons, hlive,
          Bool.false_eq_true, if_false]
        split
        · refine hskip _ ?_ taken
          dsimp only
          split <;> simp
        · cases taken.lookup (inputKey c) with
          | some first => exact hskip _ (by simp) taken
          | none => exact ih _

end Issue

theorem strayIds_issues (f : Flow) :
    Issue.strayIds f.issues = (f.liveConnections.filter f.isDangling).map (·.id) := by
  rw [Flow.issues, Issue.strayIds_append, Issue.strayIds_ofNodes, Issue.strayIds_ofConnections,
    List.nil_append]

theorem misfitIds_issues (f : Flow) :
    Issue.misfitIds f.issues = f.liveNodes.flatMap Node.misfits := by
  rw [Flow.issues, Issue.misfitIds_append, Issue.misfitIds_ofNodes,
    Issue.misfitIds_eq_nil (fun _ => Issue.not_isOfNode_of_mem_ofConnections), List.append_nil]

/-! ## Among the findings of the compiler -/

namespace Script

/-- The connections that findings call dangling. -/
def strayIds (findings : List Diagnostic) : List String :=
  (findings.filter (fun d => d.code = .danglingConnection)).map (·.connectionId)

/-- The nodes that findings call invalid. -/
def invalidIds (findings : List Diagnostic) : List String :=
  (findings.filter (fun d => d.code = .invalidNode)).map (·.nodeId)

theorem strayIds_append (as bs : List Diagnostic) :
    strayIds (as ++ bs) = strayIds as ++ strayIds bs := by
  simp [strayIds]

theorem strayIds_eq_nil {findings : List Diagnostic}
    (h : ∀ d ∈ findings, d.code ≠ .danglingConnection) : strayIds findings = [] := by
  simpa [strayIds, List.filter_eq_nil_iff] using h

theorem invalidIds_append (as bs : List Diagnostic) :
    invalidIds (as ++ bs) = invalidIds as ++ invalidIds bs := by
  simp [invalidIds]

theorem invalidIds_eq_nil {findings : List Diagnostic}
    (h : ∀ d ∈ findings, d.code ≠ .invalidNode) : invalidIds findings = [] := by
  simpa [invalidIds, List.filter_eq_nil_iff] using h

/-- A node of a supported kind that does not lack what its kind calls for fits. -/
theorem fits_of_not_lacks {n : Node} (hkind : n.kind.isSupported) (h : ¬ Lacks n) : n.Fits := by
  refine ⟨hkind, ?_⟩
  unfold Lacks at h
  unfold Node.carriesFitting
  cases hp : n.payload with
  | none => rfl
  | some payload =>
    cases hk : n.kind with
    | other name => simp [hk, NodeKind.isSupported] at hkind
    | _ => simpa [hk, Option.isSome_iff_ne_none] using h

/-- A node that lacks what its kind calls for is called invalid if it carries something else. -/
theorem invalidIds_mismatchNotes {n : Node} (hkind : n.kind.isSupported) (hlacks : Lacks n) :
    invalidIds (mismatchNotes n) = n.misfits := by
  cases hp : n.payload with
  | none =>
    have hfits : n.Fits := ⟨hkind, by simp [Node.carriesFitting, hp]⟩
    rw [mismatchNotes_eq_nil hfits hlacks, Node.misfits_of_fits hfits]
    rfl
  | some payload =>
    have hnot : ¬ n.Fits := by
      rintro ⟨-, hcarries⟩
      unfold Node.carriesFitting at hcarries
      unfold Lacks at hlacks
      cases hk : n.kind <;> simp [hp, hk] at hcarries hlacks <;> simp [hlacks] at hcarries
    simp [mismatchNotes, Diagnostic.warning, invalidIds, hp, Node.misfits, hnot]

namespace Placed

theorem invalidIds_complaints (p : Placed) : invalidIds p.complaints = p.node.misfits := by
  by_cases hk : p.node.kind.isSupported = true
  · by_cases hlacks : Lacks p.node
    · rw [complaints_of_lacks hk hlacks, invalidIds_mismatchNotes hk hlacks]
    · rw [complaints_of_not_lacks hk hlacks, Node.misfits_of_fits (fits_of_not_lacks hk hlacks)]
      refine invalidIds_eq_nil ?_
      intro d hd
      split at hd
      · simp [code_of_mem_previewNotes hd]
      · cases hd
  · have hnot : ¬ p.node.Fits := fun h => hk h.1
    cases hkind : p.node.kind <;> simp [hkind, NodeKind.isSupported] at hk
    simp [complaints, unsupportedNote, Diagnostic.warning, invalidIds, Node.misfits, hkind, hnot]

/-- Gathering a node calls it invalid exactly if it does not fit. -/
theorem invalidIds_notes (p : Placed) (known : List Definition) :
    invalidIds (p.notes known) = p.node.misfits := by
  have hmissing : invalidIds p.missing = [] := by
    refine invalidIds_eq_nil ?_
    intro d hd
    simp [code_of_mem_missing hd]
  have hredefinition : invalidIds (p.redefinition known) = [] := by
    refine invalidIds_eq_nil ?_
    intro d hd
    simp [code_of_mem_redefinition hd]
  rw [notes, invalidIds_append, invalidIds_append, invalidIds_complaints, hmissing, hredefinition,
    List.append_nil, List.append_nil]

end Placed

theorem invalidIds_gatheringNotes (known : List Definition) (nodes : List Placed) :
    invalidIds (gatheringNotes known nodes) = nodes.flatMap (fun p => p.node.misfits) := by
  induction nodes generalizing known with
  | nil => rfl
  | cons p rest ih => rw [gatheringNotes, invalidIds_append, p.invalidIds_notes, ih, List.flatMap_cons]

/-- Gathering nodes calls those invalid that do not fit. -/
theorem invalidIds_collect (nodes : List Placed) :
    invalidIds (collect nodes).diagnostics = nodes.flatMap (fun p => p.node.misfits) := by
  rw [collect_diagnostics, invalidIds_gatheringNotes]

theorem strayIds_danglingNote (connections : List Connection) :
    strayIds (connections.map danglingNote) = connections.map (·.id) := by
  induction connections with
  | nil => rfl
  | cons c rest ih => simpa [strayIds, danglingNote] using ih

/-- Ordering the nodes finds the connections without a node at some end, in flow order. -/
theorem strayIds_ordering (g : Graph) :
    strayIds (Ordering.ofGraph g).diagnostics = g.dangling.map (·.id) := by
  unfold Ordering.ofGraph
  split
  · exact strayIds_danglingNote _
  · dsimp only
    rw [strayIds_append, strayIds_danglingNote, strayIds_eq_nil ?_, List.append_nil]
    intro d hd
    rcases List.mem_cons.mp hd with rfl | hd
    · simp [cycleNote, Diagnostic.warning]
    · obtain ⟨n, -, rfl⟩ := List.mem_map.mp hd
      simp

theorem code_of_mem_inputNotes {f : Flow} {c : Collected} {p : Placed} {d : Diagnostic}
    (hd : d ∈ inputNotes f c p) : d.code = .unconnectedInput := by
  unfold inputNotes at hd
  split at hd
  · obtain ⟨port, -, rfl⟩ := List.mem_map.mp hd
    rfl
  · cases hd

/-! ## Where a finding comes from -/

/-- Of elements with different keys, one has the key of a given one. -/
theorem filter_eq_singleton {α β : Type} [DecidableEq β] {key : α → β} {as : List α}
    (h : (as.map key).Nodup) {a : α} (ha : a ∈ as) : as.filter (fun b => key b == key a) = [a] := by
  induction as with
  | nil => cases ha
  | cons b rest ih =>
    rw [List.map_cons, List.nodup_cons] at h
    rcases List.mem_cons.mp ha with rfl | ha
    · have hrest : rest.filter (fun b => key b == key a) = [] := by
        rw [List.filter_eq_nil_iff]
        intro c hc heq
        exact h.1 (by simpa using ⟨c, hc, by simpa using heq⟩)
      rw [List.filter_cons_of_pos (by simp), hrest]
    · have hne : key b ≠ key a := fun heq => h.1 (heq ▸ List.mem_map_of_mem ha)
      rw [List.filter_cons_of_neg (by simpa using hne), ih h.2 ha]

theorem find?_eq_some_of_nodup {α β : Type} [DecidableEq β] {key : α → β} {as : List α}
    (h : (as.map key).Nodup) {a : α} (ha : a ∈ as) :
    as.find? (fun b => key b == key a) = some a := by
  rw [← List.head?_filter, filter_eq_singleton h ha, List.head?_singleton]

/-- The codes of what ordering the nodes finds. -/
def orderingCodes : List DiagnosticCode :=
  [.danglingConnection, .cycle, .blockedByCycle]

theorem filter_code_eq_nil {codes : List DiagnosticCode} {code : DiagnosticCode}
    {diagnostics : List Diagnostic} (h : ∀ d ∈ diagnostics, d.code ∈ codes) (hcode : code ∉ codes) :
    diagnostics.filter (fun d => d.code = code) = [] := by
  rw [List.filter_eq_nil_iff]
  intro d hd he
  exact hcode (of_decide_eq_true he ▸ h d hd)

variable (f : Flow) (stamp : String) {code : DiagnosticCode}

theorem ordering_filter_eq_nil (hcode : code ∉ orderingCodes) :
    (Plan.ofFlow f).ordering.filter (fun d => d.code = code) = [] := by
  refine filter_code_eq_nil (fun d hd => ?_) hcode
  rcases code_of_mem_ordering hd with h | h | h <;> simp [h, orderingCodes]

theorem gathering_filter_eq_nil (hcode : code ∉ gatheringCodes) :
    (Plan.ofFlow f).collected.diagnostics.filter (fun d => d.code = code) = [] :=
  filter_code_eq_nil (fun _ => collect_diagnostics_code) hcode

theorem inputs_filter_eq_nil (hcode : code ≠ .unconnectedInput) :
    ((Plan.ofFlow f).nodes.flatMap (inputNotes f (Plan.ofFlow f).collected)).filter
      (fun d => d.code = code) = [] := by
  have hcodes : ∀ d ∈ (Plan.ofFlow f).nodes.flatMap (inputNotes f (Plan.ofFlow f).collected),
      d.code ∈ [DiagnosticCode.unconnectedInput] := by
    intro d hd
    obtain ⟨p, -, hp⟩ := List.mem_flatMap.mp hd
    simp [code_of_mem_inputNotes hp]
  exact filter_code_eq_nil hcodes (by simpa using hcode)

/-- The findings with a code of the ordering are those of the ordering. -/
theorem ordering_notes (hcode : code ∈ orderingCodes) :
    (f.compileAt stamp).diagnostics.filter (fun d => d.code = code) =
      (Plan.ofFlow f).ordering.filter (fun d => d.code = code) := by
  have hother : code ∉ gatheringCodes ∧ code ≠ .unconnectedInput := by
    revert hcode
    cases code <;> decide
  rw [Flow.compileAt]
  simp only [List.filter_append, gathering_filter_eq_nil f hother.1, inputs_filter_eq_nil f hother.2,
    List.append_nil]

/-- The findings with a code of the gathering are those of the gathering. -/
theorem gathering_notes (hcode : code ∈ gatheringCodes) :
    (f.compileAt stamp).diagnostics.filter (fun d => d.code = code) =
      (Plan.ofFlow f).collected.diagnostics.filter (fun d => d.code = code) := by
  have hother : code ∉ orderingCodes ∧ code ≠ .unconnectedInput := by
    revert hcode
    cases code <;> decide
  rw [Flow.compileAt]
  simp only [List.filter_append, ordering_filter_eq_nil f hother.1, inputs_filter_eq_nil f hother.2,
    List.append_nil, List.nil_append]

end Script

open Script

theorem strayIds_compileAt (f : Flow) (stamp : String) :
    strayIds (f.compileAt stamp).diagnostics =
      (f.liveConnections.filter f.isDangling).map (·.id) := by
  have hgraph : (Graph.ofFlow f).dangling = f.liveConnections.filter f.isDangling :=
    List.filter_congr (fun c _ => f.isNone_edgeIn? c)
  rw [strayIds, ordering_notes f stamp (by decide)]
  exact (strayIds_ordering _).trans (congrArg (List.map (·.id)) hgraph)

theorem invalidIds_compileAt (f : Flow) (stamp : String) :
    invalidIds (f.compileAt stamp).diagnostics =
      (Plan.ofFlow f).nodes.flatMap (fun p => p.node.misfits) := by
  rw [invalidIds, gathering_notes f stamp (by decide)]
  exact invalidIds_collect _

/-- The compiler and the issues of a flow find the same: the connections without a node at some end,
in the same order, and the nodes of an unsupported kind or with a payload of the wrong variant, each
as often, whatever the order of the blocks is. -/
theorem findings_agree (f : Flow) (stamp : String) :
    ((f.compileAt stamp).diagnostics.filter (fun d => d.code = .danglingConnection)).map
        (·.connectionId) =
      (f.issues.filter (fun i => i.kind = .danglingNode)).map (·.connectionId) ∧
    (((f.compileAt stamp).diagnostics.filter (fun d => d.code = .invalidNode)).map (·.nodeId) :
        Multiset String) =
      (f.issues.filter (fun i => i.kind = .unknownKind ∨ i.kind = .dataKindMismatch)).map
        (·.nodeId) := by
  constructor
  · exact (strayIds_compileAt f stamp).trans (strayIds_issues f).symm
  · have hnodes := ((Plan.nodes_perm f).flatMap_right Node.misfits)
    rw [List.flatMap_map] at hnodes
    have hfound := invalidIds_compileAt f stamp
    have hissues := misfitIds_issues f
    rw [← hfound, ← hissues] at hnodes
    exact Multiset.coe_eq_coe.mpr hnodes

end FlowScript
