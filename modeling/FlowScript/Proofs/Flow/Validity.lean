import FlowScript.Proofs.Flow.Issues
import FlowScript.Proofs.Text.Lines

/-!
# What it takes to have no issues

The structural rules of a flow, told without the search for issues. Nodes and ports are remembered by
their ids, but an input port is remembered by one text, the id of its node and its own id with a slash
between. Ids may hold slashes, so the search takes some inputs for one another; where no two inputs
read alike it finds issues exactly in the flows that break a rule.

## Main definitions

- `NodeKind.CallsFor` — the variant that goes with a kind
- `Flow.Valid` — the rules

## Main results

- `Issue.inputKeys_nodup_iff` — when the texts that stand for inputs are all different
- `issues_eq_nil_iff_of_no_slash` — no issues where the rules hold, for ids without a slash
- `issues_eq_nil_iff_valid` — no issues where the rules hold and no two inputs read alike
-/

namespace FlowScript

/-- The variant of a payload goes with the kind of its node. -/
def NodeKind.CallsFor : NodeKind → Payload → Prop
  | .function, .function _ => True
  | .csvInput, .file _ => True
  | .excelInput, .file _ => True
  | .subFlow, .subFlow _ => True
  | .output, .output _ => True
  | _, _ => False

/-- The input port that a connection leads to. -/
def Connection.input (c : Connection) : String × String :=
  (c.targetNode, c.targetPort)

/-- The structural rules of a flow. -/
structure Flow.Valid (f : Flow) : Prop where
  /-- The ids of the nodes are given once. -/
  nodeIds : (f.liveNodes.map (·.id)).Nodup
  /-- The kinds of the nodes are supported. -/
  kinds : ∀ n ∈ f.liveNodes, n.kind.isSupported = true
  /-- The nodes carry nothing, or what goes with their kinds. -/
  payloads : ∀ n ∈ f.liveNodes, ∀ p ∈ n.payload, n.kind.CallsFor p
  /-- The ids of the ports are given once in the whole flow. -/
  portIds : (portIdsOf f.liveNodes).Nodup
  /-- Connections start at an output port of a node. -/
  sources : ∀ c ∈ f.liveConnections, ∃ n ∈ f.liveNodes, n.id = c.sourceNode ∧
    ∃ p ∈ n.outputPorts, p.id = c.sourcePort
  /-- Connections end at an input port of a node. -/
  targets : ∀ c ∈ f.liveConnections, ∃ n ∈ f.liveNodes, n.id = c.targetNode ∧
    ∃ p ∈ n.inputPorts, p.id = c.targetPort
  /-- No two connections lead to one input port. -/
  inputs : (f.liveConnections.map Connection.input).Nodup

/-! ## Nodes -/

theorem Node.carriesFitting_iff {n : Node} :
    n.carriesFitting = true ↔ ∀ p ∈ n.payload, n.kind.CallsFor p := by
  unfold carriesFitting
  cases hp : n.payload with
  | none => simp
  | some p =>
    cases hk : n.kind <;> cases p <;>
      simp [hp, NodeKind.CallsFor, function?, file?, subFlow?, output?]

theorem forall_fits_iff {f : Flow} :
    (∀ n ∈ f.liveNodes, n.Fits) ↔ (∀ n ∈ f.liveNodes, n.kind.isSupported = true) ∧
      ∀ n ∈ f.liveNodes, ∀ p ∈ n.payload, n.kind.CallsFor p := by
  simp only [Node.Fits, Node.carriesFitting_iff]
  exact forall₂_and

/-! ## Connections -/

/-- Where ids are given once, the node with an id is the one that is found. -/
theorem node?_eq_some_iff {f : Flow} (hids : (f.liveNodes.map (·.id)).Nodup) {id : String}
    {n : Node} : f.node? id = some n ↔ n ∈ f.liveNodes ∧ n.id = id := by
  constructor
  · intro h
    exact ⟨List.mem_of_find?_eq_some h, by simpa using List.find?_some h⟩
  · rintro ⟨hn, rfl⟩
    have hsome : (f.node? n.id).isSome = true := by
      rw [Flow.node?, List.find?_isSome]
      exact ⟨n, hn, by simp⟩
    obtain ⟨m, hm⟩ := Option.isSome_iff_exists.mp hsome
    have hid : m.id = n.id := by simpa using List.find?_some hm
    rw [hm, List.inj_on_of_nodup_map hids (List.mem_of_find?_eq_some hm) hn hid]

theorem joins_iff {f : Flow} (hids : (f.liveNodes.map (·.id)).Nodup) {c : Connection} :
    c.Joins f ↔
      (∃ n ∈ f.liveNodes, n.id = c.sourceNode ∧ ∃ p ∈ n.outputPorts, p.id = c.sourcePort) ∧
        ∃ n ∈ f.liveNodes, n.id = c.targetNode ∧ ∃ p ∈ n.inputPorts, p.id = c.targetPort := by
  have hsplit : c.Joins f ↔ (∃ n, f.node? c.sourceNode = some n ∧ n.hasOutput c.sourcePort = true) ∧
      ∃ n, f.node? c.targetNode = some n ∧ n.hasInput c.targetPort = true :=
    ⟨fun h => ⟨h.source, h.target⟩, fun h => ⟨h.1, h.2⟩⟩
  simp only [hsplit, node?_eq_some_iff hids, Node.hasOutput, Node.hasInput, List.any_eq_true,
    beq_iff_eq, and_assoc]

namespace Issue

/-- The texts that stand for inputs are all different when the inputs are and no two of them read
alike. -/
theorem inputKeys_nodup_iff {wires : List Connection} :
    (wires.map inputKey).Nodup ↔ (wires.map Connection.input).Nodup ∧
      ∀ c ∈ wires, ∀ d ∈ wires, inputKey c = inputKey d → c.input = d.input := by
  have hkeys : wires.map inputKey =
      (wires.map Connection.input).map (fun input => input.1 ++ "/" ++ input.2) := by
    simp [inputKey, Connection.input, Function.comp_def]
  rw [hkeys]
  constructor
  · intro h
    have hinputs := h.of_map
    refine ⟨hinputs, fun c hc d hd hsame => ?_⟩
    exact (List.nodup_map_iff_inj_on hinputs).mp h _ (List.mem_map_of_mem hc) _
      (List.mem_map_of_mem hd) hsame
  · rintro ⟨hinputs, hapart⟩
    refine (List.nodup_map_iff_inj_on hinputs).mpr ?_
    intro a ha b hb hsame
    obtain ⟨c, hc, rfl⟩ := List.mem_map.mp ha
    obtain ⟨d, hd, rfl⟩ := List.mem_map.mp hb
    exact hapart c hc d hd hsame

/-- Where the ids of the nodes hold no slash, the text for an input falls apart at its first one. -/
theorem input_eq_of_inputKey {c d : Connection} (hc : '/' ∉ c.targetNode.toList)
    (hd : '/' ∉ d.targetNode.toList) (h : inputKey c = inputKey d) : c.input = d.input := by
  have hlist : c.targetNode.toList ++ '/' :: c.targetPort.toList =
      d.targetNode.toList ++ '/' :: d.targetPort.toList := by
    simpa [inputKey] using congrArg String.toList h
  obtain ⟨hnode, hport⟩ := Text.append_sep_inj hc hd hlist
  exact Prod.ext (String.toList_injective hnode) (String.toList_injective hport)

end Issue

/-! ## Flows -/

theorem issues_eq_nil_iff_inputKeys (f : Flow) :
    f.issues = [] ↔ f.Valid ∧ ∀ c ∈ f.liveConnections, ∀ d ∈ f.liveConnections,
      Issue.inputKey c = Issue.inputKey d → c.input = d.input := by
  rw [issues_eq_nil_iff, forall_fits_iff, Issue.inputKeys_nodup_iff]
  constructor
  · rintro ⟨hids, hports, ⟨hkinds, hpayloads⟩, hjoins, hinputs, hapart⟩
    exact ⟨⟨hids, hkinds, hpayloads, hports, fun c hc => ((joins_iff hids).mp (hjoins c hc)).1,
      fun c hc => ((joins_iff hids).mp (hjoins c hc)).2, hinputs⟩, hapart⟩
  · rintro ⟨h, hapart⟩
    exact ⟨h.nodeIds, h.portIds, ⟨h.kinds, h.payloads⟩,
      fun c hc => (joins_iff h.nodeIds).mpr ⟨h.sources c hc, h.targets c hc⟩, h.inputs, hapart⟩

/-- For ids without a slash, as new nodes get them, a flow has no issues exactly when it keeps the
rules. -/
theorem issues_eq_nil_iff_of_no_slash {f : Flow}
    (h : ∀ c ∈ f.liveConnections, '/' ∉ c.targetNode.toList) : f.issues = [] ↔ f.Valid := by
  rw [issues_eq_nil_iff_inputKeys]
  exact and_iff_left fun c hc d hd => Issue.input_eq_of_inputKey (h c hc) (h d hd)

/-- A flow has no issues exactly when it keeps the rules and no two connections lead to different
inputs that read alike, the id of the node and the id of the port with a slash between. -/
theorem issues_eq_nil_iff_valid (f : Flow) :
    f.issues = [] ↔ f.Valid ∧ ∀ c ∈ f.liveConnections, ∀ d ∈ f.liveConnections,
      c.targetNode ++ "/" ++ c.targetPort = d.targetNode ++ "/" ++ d.targetPort →
        c.targetNode = d.targetNode ∧ c.targetPort = d.targetPort := by
  rw [issues_eq_nil_iff_inputKeys]
  simp only [Issue.inputKey, Connection.input, Prod.mk.injEq]

/-- A table that feeds the input `b/c` of the node `a` and the input `c` of the node `a/b`. -/
def slashedFlow : Flow :=
  { nodes :=
      [some { id := "t", kind := .csvInput
              outputs := [some { id := "o", nodeId := "t", direction := .output }] },
        some { id := "a", kind := .output
               inputs := [some { id := "b/c", nodeId := "a", direction := .input }] },
        some { id := "a/b", kind := .output
               inputs := [some { id := "c", nodeId := "a/b", direction := .input }] }]
    connections := [some ⟨"first", "t", "o", "a", "b/c"⟩, some ⟨"second", "t", "o", "a/b", "c"⟩] }

/-- A flow that keeps the rules is found to feed an input twice. -/
theorem slashedFlow_misjudged :
    slashedFlow.Valid ∧ slashedFlow.issues.map (fun i => (i.kind, i.connectionId)) =
      [(.inputOvercommitted, "second")] := by
  refine ⟨⟨by decide, by decide, ?_, by decide, by decide, by decide, by decide⟩, by decide +kernel⟩
  intro n hn p hp
  have hnone : ∀ m ∈ slashedFlow.liveNodes, m.payload = none := by
    simp [slashedFlow, Flow.liveNodes]
  rw [hnone n hn] at hp
  cases hp

end FlowScript
