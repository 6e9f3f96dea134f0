import FlowScript.Proofs.Flow.Regular

/-!
# Wires of a node with new code

New code never moves a wire to another parameter. In every flow that was edited from an empty one,
the ports that keep their name keep their wires, the wires of the others go, and everything else stays
as it was.

## Main definitions

- `Connection.LosesPort` — a connection is attached to a port that new code does not keep

## Main results

- `Node.survives_iff` — the connections that survive are those that lose no port
- `newCode_keeps_wiring` — what new code does to an edited flow
- `emptied_name_comes_back` — an empty display name is not kept, nor a wire of the node to itself
  that loses its other port
-/

namespace FlowScript

/-- The connection is attached to a port of the node that is not kept for the names of a
signature. -/
def Connection.LosesPort (c : Connection) (n : Node) (sig : Signature) : Prop :=
  (c.targetNode = n.id ∧
      ∃ p ∈ n.inputPorts, p.id = c.targetPort ∧ p ∉ keptPorts n.inputPorts sig.inputs) ∨
    (c.sourceNode = n.id ∧
      ∃ p ∈ n.outputPorts, p.id = c.sourcePort ∧ p ∉ keptPorts n.outputPorts sig.outputs)

instance (c : Connection) (n : Node) (sig : Signature) : Decidable (c.LosesPort n sig) :=
  inferInstanceAs (Decidable (_ ∨ _))

/-- Whether a port is kept can be told from its id. -/
theorem keptPorts_of_id {names : List String} {old : List Port} (hids : (old.map (·.id)).Nodup)
    {p q : Port} (hp : p ∈ keptPorts old names) (hq : q ∈ old) (hid : q.id = p.id) :
    q ∈ keptPorts old names := by
  have hmem : p ∈ old := List.mem_of_mem_filter hp
  exact List.inj_on_of_nodup_map hids hq hmem hid ▸ hp

theorem not_losesPort_of_kept {n : Node} {sig : Signature} {c : Connection}
    (hids : (n.ports.map (·.id)).Nodup)
    (htarget : c.targetNode = n.id →
      ∃ p ∈ keptPorts n.inputPorts sig.inputs, p.id = c.targetPort)
    (hsource : c.sourceNode = n.id →
      ∃ p ∈ keptPorts n.outputPorts sig.outputs, p.id = c.sourcePort) :
    ¬ c.LosesPort n sig := by
  rw [Node.ports, List.map_append] at hids
  obtain ⟨hinIds, houtIds, -⟩ := List.nodup_append.mp hids
  rintro (⟨hid, q, hq, hport, hgone⟩ | ⟨hid, q, hq, hport, hgone⟩)
  · obtain ⟨p, hp, hsame⟩ := htarget hid
    exact hgone (keptPorts_of_id hinIds hp hq (hport.trans hsame.symm))
  · obtain ⟨p, hp, hsame⟩ := hsource hid
    exact hgone (keptPorts_of_id houtIds hp hq (hport.trans hsame.symm))

/-- An old port is still there exactly when no port with its id was not kept. -/
theorem PortsFollow.any_iff {names : List String} {old new : List Port}
    (h : PortsFollow names old new) (hids : (old.map (·.id)).Nodup) {id : String}
    (hid : id ∈ old.map (·.id)) :
    new.any (·.id == id) = true ↔ ¬ ∃ p ∈ old, p.id = id ∧ p ∉ keptPorts old names := by
  obtain ⟨p, hp, rfl⟩ := List.mem_map.mp hid
  have hany : new.any (·.id == p.id) = true ↔ p ∈ keptPorts old names := by
    rw [h.kept_iff p hp]
    simp
  rw [hany]
  constructor
  · rintro hkept ⟨q, hq, hsame, hgone⟩
    exact hgone (keptPorts_of_id hids hkept hq hsame)
  · intro hnone
    by_contra hgone
    exact hnone ⟨p, hp, rfl, hgone⟩

/-- A port of a surviving connection had the same source name before. -/
theorem PortsFollow.sourceName_eq {names : List String} {old new : List Port}
    (h : PortsFollow names old new) {id : String} (hold : id ∈ old.map (·.id))
    (hnew : id ∈ new.map (·.id)) :
    ∃ p ∈ old, ∃ q ∈ new, p.id = id ∧ q.id = id ∧ q.sourceName = p.sourceName := by
  obtain ⟨p, hp, rfl⟩ := List.mem_map.mp hold
  obtain ⟨q, hq, hid⟩ := List.mem_map.mp hnew
  refine ⟨p, hp, q, hq, rfl, hid, ?_⟩
  rw [h.same p hp q hq hid, Port.filled_sourceName]

namespace Node

variable {n n' : Node} {sig : Signature}

/-- Of the connections that have their ports on a node those survive that lose no port. -/
theorem survives_iff (hins : PortsFollow sig.inputs n.inputPorts n'.inputPorts)
    (houts : PortsFollow sig.outputs n.outputPorts n'.outputPorts)
    (hids : (n.ports.map (·.id)).Nodup) (hid : n'.id = n.id) {c : Connection}
    (hc : Flow.survives n c = true) :
    Flow.survives n' c = true ↔ ¬ c.LosesPort n sig := by
  rw [ports, List.map_append] at hids
  obtain ⟨hinIds, houtIds, -⟩ := List.nodup_append.mp hids
  simp only [Flow.survives, hid, Bool.and_eq_true, Bool.or_eq_true, bne_iff_ne] at hc ⊢
  rw [Connection.LosesPort, not_or, not_and, not_and]
  refine and_congr ?_ ?_
  · by_cases htarget : c.targetNode = n.id
    · have hport := hasInput_iff.mp (hc.1.resolve_left (fun hne => hne htarget))
      simpa only [htarget, ne_eq, not_true_eq_false, false_or, true_imp_iff, hasInput] using
        hins.any_iff hinIds hport
    · simp [htarget]
  · by_cases hsource : c.sourceNode = n.id
    · have hport := hasOutput_iff.mp (hc.2.resolve_left (fun hne => hne hsource))
      simpa only [hsource, ne_eq, not_true_eq_false, false_or, true_imp_iff, hasOutput] using
        houts.any_iff houtIds hport
    · simp [hsource]

/-- A connection that has its ports on a node before and after it changed has them under the same
source names. -/
theorem sourceNames_of_survives (hins : PortsFollow sig.inputs n.inputPorts n'.inputPorts)
    (houts : PortsFollow sig.outputs n.outputPorts n'.outputPorts) (hid : n'.id = n.id)
    {c : Connection} (hc : Flow.survives n c = true) (hc' : Flow.survives n' c = true) :
    (c.targetNode = n.id → ∃ p ∈ n.inputPorts, ∃ q ∈ n'.inputPorts,
      p.id = c.targetPort ∧ q.id = c.targetPort ∧ q.sourceName = p.sourceName) ∧
    (c.sourceNode = n.id → ∃ p ∈ n.outputPorts, ∃ q ∈ n'.outputPorts,
      p.id = c.sourcePort ∧ q.id = c.sourcePort ∧ q.sourceName = p.sourceName) := by
  simp only [Flow.survives, hid, Bool.and_eq_true, Bool.or_eq_true, bne_iff_ne, hasInput_iff,
    hasOutput_iff] at hc hc'
  refine ⟨?_, ?_⟩
  · intro htarget
    exact hins.sourceName_eq (hc.1.resolve_left (fun hne => hne htarget))
      (hc'.1.resolve_left (fun hne => hne htarget))
  · intro hsource
    exact houts.sourceName_eq (hc.2.resolve_left (fun hne => hne hsource))
      (hc'.2.resolve_left (fun hne => hne hsource))

end Node

namespace Flow.Regular

variable {f : Flow} {n : Node} {code : String} {s : Supply}

/-- The ports of a node follow the names of its new code. -/
theorem follow (h : f.Regular) (hn : n ∈ f.liveNodes)
    (hfresh : ∀ id ∈ n.minted code s, id ∉ portIdsOf f.liveNodes) (data : FunctionData) :
    PortsFollow (Signature.ofSource code).inputs n.inputPorts
        (n.recoded data code s).inputPorts ∧
      PortsFollow (Signature.ofSource code).outputs n.outputPorts
        (n.recoded data code s).outputPorts := by
  obtain ⟨hinNames, houtNames⟩ := Signature.named code
  have hids := h.portIds_nodup hn
  rw [Node.ports, List.map_append] at hids
  obtain ⟨hinIds, houtIds, -⟩ := List.nodup_append.mp hids
  have hold : ∀ p ∈ n.ports, p.id ∉ n.minted code s :=
    fun p hp hmem => hfresh p.id hmem (id_mem_portIdsOf hn hp)
  refine ⟨(n.recoded_inputs data code s).follow hinIds (h.nodes n hn).inputs hinNames ?_,
    (n.recoded_outputs data code s).follow houtIds (h.nodes n hn).outputs houtNames ?_⟩
  · exact fun p hp hmem => hold p (List.mem_append_left _ hp) (List.mem_append_left _ hmem)
  · exact fun p hp hmem => hold p (List.mem_append_right _ hp) (List.mem_append_right _ hmem)

/-- The connections that survive new code are those that lose no port. -/
theorem filter_survives_eq (h : f.Regular) (hn : f.node? n.id = some n)
    (hfresh : ∀ id ∈ n.minted code s, id ∉ portIdsOf f.liveNodes) (data : FunctionData) :
    f.liveConnections.filter (survives (n.recoded data code s)) =
      f.liveConnections.filter (fun c => ¬ c.LosesPort n (Signature.ofSource code)) := by
  obtain ⟨hins, houts⟩ := h.follow (node?_spec hn).1 hfresh data
  refine List.filter_congr ?_
  intro c hc
  rw [Bool.eq_iff_iff, decide_eq_true_iff]
  exact Node.survives_iff hins houts (h.portIds_nodup (node?_spec hn).1) rfl
    ((h.joins c hc).survives hn)

/-- The same code once more changes nothing. -/
theorem updateCode_again {data : FunctionData} {before after : List Node}
    {wires : List Connection}
    (h : (f.listing (before ++ n.recoded data code s :: after) wires).Regular)
    (hkind : n.kind = .function) (hbefore : ∀ m ∈ before, m.id ≠ n.id)
    (hwires : ∀ c ∈ wires, survives (n.recoded data code s) c = true) (s' : Supply) :
    (f.listing (before ++ n.recoded data code s :: after) wires).updateCode n.id code s' =
      (.ok (f.listing (before ++ n.recoded data code s :: after) wires), s') := by
  obtain ⟨hagain, hminted⟩ := Node.recoded_again
    (h.portIds_nodup (n := n.recoded data code s) (by simp)) s'
  have hdata : (n.recoded data code s).function? = some { data with code := code } := rfl
  have hupdate := h.updateCode_eq hdata hkind (liveNodes_listing f _ wires) hbefore code s'
  rw [hagain, hminted, liveConnections_listing, List.filter_eq_self.mpr hwires] at hupdate
  exact hupdate

end Flow.Regular

/-- A function node of a flow that was edited from an empty one gets new code, and no port that was
minted meanwhile or is minted now has the id of another port. Then the update succeeds and only this
node changes, in its ports and its code. Its ports are those of the new signature, in order; for each
source name the first of them, as many as there were and are, are the old ones, except that an empty
display name becomes the source name; and an old port is still there exactly when it is one of these.
A connection goes exactly when it is attached to a port of the node that is not kept, so one whose
ends on the node are kept stays. The others stay as they are, and each end that they have on the node
has the same source name as before. The same update changes nothing then. -/
theorem newCode_keeps_wiring (e : Editing) (hstart : e.Start) (edits : List Edit)
    (nodeId code : String) (hfresh : e.MintsFresh (edits ++ [.updateCode nodeId code])) (n : Node)
    (hn : (e.run edits).flow.node? nodeId = some n) (hkind : n.kind = .function) :
    let f := (e.run edits).flow
    let sig := Signature.ofSource code
    ∃ (f' : Flow) (n' : Node) (s' : Supply) (before after : List Node),
      f.updateCode nodeId code (e.run edits).supply = (.ok f', s') ∧
      f.liveNodes = before ++ n :: after ∧
      f' = f.listing (before ++ n' :: after)
        (f.liveConnections.filter (fun c => ¬ c.LosesPort n sig)) ∧
      n' = { n with inputs := n'.inputs, outputs := n'.outputs, payload := n'.payload } ∧
      n'.function? = n.function?.map (fun data => { data with code := code }) ∧
      (portIdsOf f.liveNodes).Nodup ∧ (portIdsOf f'.liveNodes).Nodup ∧
      PortsFollow sig.inputs n.inputPorts n'.inputPorts ∧
      PortsFollow sig.outputs n.outputPorts n'.outputPorts ∧
      (∀ c ∈ f.liveConnections,
        (c.targetNode = n.id → ∃ p ∈ keptPorts n.inputPorts sig.inputs, p.id = c.targetPort) →
        (c.sourceNode = n.id → ∃ p ∈ keptPorts n.outputPorts sig.outputs, p.id = c.sourcePort) →
        c ∈ f'.liveConnections) ∧
      (∀ c ∈ f'.liveConnections,
        (c.targetNode = n.id → ∃ p ∈ n.inputPorts, ∃ q ∈ n'.inputPorts,
          p.id = c.targetPort ∧ q.id = c.targetPort ∧ q.sourceName = p.sourceName) ∧
        (c.sourceNode = n.id → ∃ p ∈ n.outputPorts, ∃ q ∈ n'.outputPorts,
          p.id = c.sourcePort ∧ q.id = c.sourcePort ∧ q.sourceName = p.sourceName)) ∧
      ∀ s, f'.updateCode nodeId code s = (.ok f', s) := by
  intro f sig
  obtain ⟨hrun, ⟨hnodup, hnew⟩, -⟩ := Editing.mintsFresh_append.mp hfresh
  have hf : f.Regular := Editing.run_regular hstart.regular hrun
  obtain ⟨hmem, rfl⟩ := Flow.node?_spec hn
  obtain ⟨data, hdata⟩ := (hf.nodes n hmem).exists_function? hkind
  obtain ⟨before, after, hnodes, hbefore⟩ := Flow.node?_split hn
  simp only [Editing.mintedPorts, hn, hkind, if_true] at hnodup hnew
  obtain ⟨hins, houts⟩ := hf.follow hmem hnew data
  have hfilter := hf.filter_survives_eq hn hnew data
  have hupdate := hf.updateCode_eq hdata hkind hnodes hbefore code (e.run edits).supply
  have hresult := hf.updateCode hkind hnodes hbefore hnodup hnew data
  have hsurvives : ∀ c ∈ f.liveConnections.filter (fun c => ¬ c.LosesPort n sig),
      Flow.survives n c = true ∧
        Flow.survives (n.recoded data code (e.run edits).supply) c = true := by
    intro c hc
    rw [← hfilter] at hc
    obtain ⟨hwire, hstays⟩ := List.mem_filter.mp hc
    exact ⟨(hf.joins c hwire).survives hn, hstays⟩
  rw [hfilter] at hresult hupdate
  refine ⟨_, n.recoded data code (e.run edits).supply, _, before, after, hupdate, hnodes, rfl, rfl,
    ?_, hf.ports_nodup, hresult.ports_nodup, hins, houts, ?_, ?_, ?_⟩
  · rw [hdata]
    rfl
  · intro c hc htarget hsource
    rw [Flow.liveConnections_listing]
    refine List.mem_filter.mpr ⟨hc, decide_eq_true ?_⟩
    exact not_losesPort_of_kept (hf.portIds_nodup hmem) htarget hsource
  · intro c hc
    rw [Flow.liveConnections_listing] at hc
    exact Node.sourceNames_of_survives hins houts rfl (hsurvives c hc).1 (hsurvives c hc).2
  · exact hresult.updateCode_again hkind hbefore (fun c hc => (hsurvives c hc).2)

/-- A call with two inputs `a`, wired to an output node and from its output `y` to its first input;
its input `b` is renamed. -/
def rewiredEdits : List Edit :=
  [.addNode .function "Call" {} { code := "def f(a, b, a):\n  return x, y" },
    .addNode .output "Shown" {} {},
    .addConnection
      { sourceNode := "node_0000010000", sourcePort := "port_out_node_0000010000_x_000005"
        targetNode := "node_0000070000", targetPort := "port_in_node_0000070000_result_000008" },
    .addConnection
      { sourceNode := "node_0000010000", sourcePort := "port_out_node_0000010000_y_000006"
        targetNode := "node_0000010000", targetPort := "port_in_node_0000010000_a_000002" },
    .renamePort "node_0000010000" "port_in_node_0000010000_b_000003" "Beta"]

/-- The new code swaps `b` and `a`, and drops the second `a` and the output `y`: the wire from `x`
stays and the other one goes. -/
theorem rewiredEdits_keep_wiring :
    Editing.MintsFresh ⟨{}, countedSupply⟩
      (rewiredEdits ++ [.updateCode "node_0000010000" "def f(b, a):\n  return x"]) ∧
    ((Editing.run ⟨{}, countedSupply⟩ rewiredEdits).flow.node? "node_0000010000").map (·.kind) =
      some .function ∧
    ∃ f s, (Editing.run ⟨{}, countedSupply⟩ rewiredEdits).flow.updateCode "node_0000010000"
        "def f(b, a):\n  return x" (Editing.run ⟨{}, countedSupply⟩ rewiredEdits).supply =
        (.ok f, s) ∧
      f.liveConnections.map (·.id) = ["conn_0000090000"] ∧ (portIdsOf f.liveNodes).Nodup ∧
      f.updateCode "node_0000010000" "def f(b, a):\n  return x" countedSupply =
        (.ok f, countedSupply) := by
  have hfresh : Editing.MintsFresh ⟨{}, countedSupply⟩
      (rewiredEdits ++ [.updateCode "node_0000010000" "def f(b, a):\n  return x"]) := by
    decide +kernel
  have hkind : ((Editing.run ⟨{}, countedSupply⟩ rewiredEdits).flow.node?
      "node_0000010000").map (·.kind) = some .function := by decide +kernel
  have hwires : ((Editing.run ⟨{}, countedSupply⟩ rewiredEdits).flow.updateCode
      "node_0000010000" "def f(b, a):\n  return x"
      (Editing.run ⟨{}, countedSupply⟩ rewiredEdits).supply).1.toOption.map
        (fun f => f.liveConnections.map (·.id)) = some ["conn_0000090000"] := by decide +kernel
  obtain ⟨n, hn, hfunction⟩ := Option.map_eq_some_iff.mp hkind
  obtain ⟨f, -, s, -, -, hupdate, -, -, -, -, -, hnodup, -, -, -, -, hagain⟩ :=
    newCode_keeps_wiring _ (.zero true true countedSupply) rewiredEdits "node_0000010000"
      "def f(b, a):\n  return x" hfresh n hn hfunction
  rw [hupdate] at hwires
  exact ⟨hfresh, hkind, f, s, hupdate, Option.some.inj hwires, hnodup, hagain countedSupply⟩

/-- A call that is wired from its output to its input, whose display name is emptied. -/
def emptiedEdits : List Edit :=
  [.addNode .function "Call" {} { code := "def f(a):\n  return a" },
    .renamePort "node_0000010000" "port_in_node_0000010000_a_000002" "",
    .addConnection
      { sourceNode := "node_0000010000", sourcePort := "port_out_node_0000010000_a_000003"
        targetNode := "node_0000010000", targetPort := "port_in_node_0000010000_a_000002" }]

/-- New code that keeps the input, and so its id, does not keep its empty display name. Nor does it
keep the wire of the input, which comes from an output that is not kept. -/
theorem emptied_name_comes_back :
    Editing.Start ⟨{}, countedSupply⟩ ∧
    Editing.MintsFresh ⟨{}, countedSupply⟩
      (emptiedEdits ++ [.updateCode "node_0000010000" "def f(a):\n  return b"]) ∧
    (Signature.ofSource "def f(a):\n  return b").inputs = ["a"] ∧
    (Editing.run ⟨{}, countedSupply⟩ emptiedEdits).flow.liveNodes.map
      (fun n => n.inputPorts.map (fun p => (p.id, p.name, p.sourceName))) =
        [[("port_in_node_0000010000_a_000002", "", "a")]] ∧
    (Editing.run ⟨{}, countedSupply⟩ emptiedEdits).flow.liveConnections.map (·.targetPort) =
      ["port_in_node_0000010000_a_000002"] ∧
    ((Editing.run ⟨{}, countedSupply⟩ emptiedEdits).flow.updateCode "node_0000010000"
      "def f(a):\n  return b" (Editing.run ⟨{}, countedSupply⟩ emptiedEdits).supply).1.toOption.map
        (fun f => (f.liveNodes.map
          (fun n => n.inputPorts.map (fun p => (p.id, p.name, p.sourceName))), f.liveConnections)) =
      some ([[("port_in_node_0000010000_a_000002", "a", "a")]], []) :=
  ⟨.zero true true countedSupply, by decide +kernel, by decide +kernel, by decide +kernel,
    by decide +kernel, by decide +kernel⟩

end FlowScript
