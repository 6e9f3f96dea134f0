import FlowScript.Proofs.Graph.Cycles
import FlowScript.Proofs.Script.SharedFindings

/-!
# Nodes behind a cycle

A node that the dependency order leaves over although it is on no reported cycle gets a note of its
own, which names the nodes it waits for. When the ids of the nodes differ there is one such note for
each of these nodes and none for any other, and it names at least one node: whatever is left over
reads from something else that is left over.

## Main definitions

- `Graph.Blocked` — left over by the order, and on no reported cycle
- `Graph.openSources` — what a node reads from and what was left over itself
- `Script.blockedNote` — the note of a node with the nodes that it waits for

## Main results

- `Graph.openSources_ne_nil` — a node that is left over waits for something
- `Script.filter_blockedNotes` — a blocked node has one note
- `blocked_nodes_explained` — which nodes a compilation notes, and what it says about them
-/

namespace FlowScript

namespace Graph

variable {g : Graph} {i : Nat} {n : Node}

/-- The node at a place was not placed by the dependency order, and no reported cycle holds it. -/
def Blocked (g : Graph) (i : Nat) : Prop :=
  i < g.size ∧ i ∉ g.placed ∧ ∀ group ∈ g.cycles, i ∉ group

/-- The places of the nodes that a node reads from and that were not placed, in flow order. -/
def openSources (g : Graph) (i : Nat) : List Nat :=
  (g.sources i).filter (fun j => !g.placed.contains j)

theorem mem_openSources_iff (hg : g.Inside) {j : Nat} :
    j ∈ g.openSources i ↔ g.Edge j i ∧ j ∉ g.placed := by
  have hsource : j ∈ g.sources i ↔ g.Edge j i := by
    simp only [sources, List.mem_filter, List.mem_range, List.contains_iff_mem]
    exact ⟨fun h => h.2, fun h => ⟨(hg j i h).1, h⟩⟩
  simp [openSources, List.mem_filter, hsource]

/-- A node that was not placed reads from one that was not placed. -/
theorem openSources_ne_nil (hg : g.Inside) (hi : i < g.size) (h : i ∉ g.placed) :
    g.openSources i ≠ [] := by
  rw [mem_placed_iff hg hi] at h
  push Not at h
  obtain ⟨j, hedge, hj⟩ := h
  exact List.ne_nil_of_mem ((mem_openSources_iff hg).mpr ⟨hedge, hj⟩)

/-! ## Ids that tell the places apart -/

section DifferentIds

variable (hids : (g.nodes.map (·.id)).Nodup)

include hids

theorem mem_idsAt_iff (hn : g.nodes[i]? = some n) {places : List Nat} :
    n.id ∈ g.idsAt places ↔ i ∈ places := by
  simp only [idsAt, List.mem_filterMap, Option.map_eq_some_iff]
  constructor
  · rintro ⟨j, hj, m, hm, hid⟩
    exact eq_of_id hids hn hm hid ▸ hj
  · intro hi
    exact ⟨i, hi, n, hn, rfl⟩

theorem find?_id (hn : g.nodes[i]? = some n) : g.nodes.find? (·.id == n.id) = some n :=
  Script.find?_eq_some_of_nodup hids (List.mem_of_getElem? hn)

/-- The ids of some places without those of others. -/
theorem filter_idsAt (places others : List Nat) :
    (g.idsAt places).filter (fun id => !(g.idsAt others).contains id) =
      g.idsAt (places.filter (fun j => !others.contains j)) := by
  show List.filter _ (places.filterMap _) = (places.filter _).filterMap _
  rw [List.filter_filterMap, List.filterMap_filter]
  refine List.filterMap_congr fun j _ => ?_
  cases hm : g.nodes[j]? with
  | none => simp
  | some m =>
    have hother : (g.idsAt others).contains m.id = others.contains j := by
      rw [Bool.eq_iff_iff]
      simpa using g.mem_idsAt_iff hids hm
    rw [Option.map_some, Option.filter_some, hother]

/-- The nodes that some ids belong to are found again. -/
theorem filterMap_find?_idsAt (places : List Nat) :
    (g.idsAt places).filterMap (fun id => g.nodes.find? (·.id == id)) = g.nodesAt places := by
  rw [idsAt, List.filterMap_filterMap, nodesAt]
  refine List.filterMap_congr fun j _ => ?_
  cases hm : g.nodes[j]? with
  | none => rfl
  | some m => exact g.find?_id hids hm

end DifferentIds

end Graph

namespace Script

variable {g : Graph}

/-- The note of a blocked node, with the nodes that it waits for. -/
def blockedNote (n : Node) (waits : List Node) : Diagnostic :=
  { code := .blockedByCycle, severity := .info, nodeId := n.id
    message := "node " ++ quoted n.name ++ " reads from "
      ++ String.intercalate ", " (waits.map (fun m => quoted m.name))
      ++ ", which cannot be ordered" }

/-- The names in a note are those of the nodes that were not placed. -/
theorem waitsFor_eq (hids : (g.nodes.map (·.id)).Nodup) {i : Nat} {n : Node}
    (hn : g.nodes[i]? = some n) :
    waitsFor g (g.idsAt g.placed) n = (g.nodesAt (g.openSources i)).map (·.name) := by
  rw [waitsFor, Graph.dependencies, g.place?_id hids hn]
  dsimp only
  rw [g.filter_idsAt hids, ← g.filterMap_find?_idsAt hids, List.map_filterMap]
  rfl

/-- What is found about blocked nodes: one note for each of them, in flow order. -/
theorem blockedNotes_ordering (g : Graph) (hg : g.Inside) :
    (Ordering.ofGraph g).diagnostics.filter (fun d => d.code = .blockedByCycle) =
      blockedNotes g (g.idsAt g.placed) (g.cycles.map g.idsAt).flatten := by
  have hdangling :
      (g.dangling.map danglingNote).filter (fun d => d.code = .blockedByCycle) = [] := by
    rw [List.filter_eq_nil_iff]
    intro d hd
    obtain ⟨c, -, rfl⟩ := List.mem_map.mp hd
    simp [danglingNote]
  unfold Ordering.ofGraph
  cases hord : g.isOrdered with
  | true =>
    -- a complete order leaves nothing to note
    have hplaced : ∀ n ∈ g.nodes, (g.idsAt g.placed).contains n.id = true := by
      intro n hn
      obtain ⟨i, hi, hget⟩ := List.mem_iff_getElem.mp hn
      have hmem := (Graph.isOrdered_iff_forall_mem hg).mp hord i hi
      rw [List.contains_iff_mem, Graph.idsAt, List.mem_filterMap]
      exact ⟨i, hmem, by rw [List.getElem?_eq_getElem hi, hget]; rfl⟩
    have hnone : g.nodes.filter (fun n => !(g.idsAt g.placed).contains n.id &&
        !(g.cycles.map g.idsAt).flatten.contains n.id) = [] := by
      rw [List.filter_eq_nil_iff]
      intro n hn
      rw [hplaced n hn]
      simp
    rw [blockedNotes, hnone]
    simpa using hdangling
  | false =>
    have hall : ∀ d ∈ blockedNotes g (g.idsAt g.placed) (g.cycles.map g.idsAt).flatten,
        decide (d.code = .blockedByCycle) = true := by
      intro d hd
      obtain ⟨n, -, rfl⟩ := List.mem_map.mp hd
      rfl
    simp only [Bool.false_eq_true, if_false]
    rw [List.filter_append, hdangling, List.nil_append,
      List.filter_cons_of_neg (by simp [cycleNote, Diagnostic.warning]),
      List.filter_eq_self.mpr hall]

/-- The nodes that get a note are the blocked ones. -/
theorem isNoted_iff (hids : (g.nodes.map (·.id)).Nodup) {i : Nat} {n : Node}
    (hn : g.nodes[i]? = some n) :
    (!(g.idsAt g.placed).contains n.id && !(g.cycles.map g.idsAt).flatten.contains n.id) = true ↔
      g.Blocked i := by
  have hlt : i < g.size := (List.getElem?_eq_some_iff.mp hn).1
  simp [Graph.Blocked, hlt, g.mem_idsAt_iff hids hn]

/-- The notes of a node with its own id: one if it is blocked. -/
theorem filter_blockedNotes (hids : (g.nodes.map (·.id)).Nodup) {i : Nat} {n : Node}
    (hn : g.nodes[i]? = some n) :
    (blockedNotes g (g.idsAt g.placed) (g.cycles.map g.idsAt).flatten).filter
        (fun d => d.nodeId = n.id) =
      ([n].filter (fun n => !(g.idsAt g.placed).contains n.id &&
        !(g.cycles.map g.idsAt).flatten.contains n.id)).map
          (fun n => blockedNote n (g.nodesAt (g.openSources i))) := by
  have hone : g.nodes.filter (fun m => decide (m.id = n.id)) = [n] := by
    rw [← filter_eq_singleton hids (List.mem_of_getElem? hn)]
    exact List.filter_congr fun m _ => (beq_eq_decide _ _).symm
  rw [blockedNotes, List.filter_map, List.filter_comm]
  simp only [Function.comp_def]
  rw [hone]
  refine List.map_congr_left fun m hm => ?_
  obtain rfl := List.mem_singleton.mp (List.mem_filter.mp hm).1
  rw [waitsFor_eq hids hn, blockedNote, List.map_map]
  rfl

/-- Every note is about a blocked node. -/
theorem blocked_of_mem_blockedNotes (hids : (g.nodes.map (·.id)).Nodup) {d : Diagnostic}
    (hd : d ∈ blockedNotes g (g.idsAt g.placed) (g.cycles.map g.idsAt).flatten) :
    ∃ i n, g.nodes[i]? = some n ∧ g.Blocked i ∧ d.nodeId = n.id := by
  obtain ⟨n, hmem, rfl⟩ := List.mem_map.mp hd
  obtain ⟨hn, hnoted⟩ := List.mem_filter.mp hmem
  obtain ⟨i, hi⟩ := List.mem_iff_getElem?.mp hn
  exact ⟨i, n, hi, (isNoted_iff hids hi).mp hnoted, rfl⟩

end Script

open Script Relation

/-- The edge between two nodes of a flow, told from its connections. -/
theorem Graph.ofFlow_edge_iff_ids {f : Flow} (hids : (f.liveNodes.map (·.id)).Nodup) {i j : Nat}
    {n m : Node} (hn : f.liveNodes[i]? = some n) (hm : f.liveNodes[j]? = some m) :
    (Graph.ofFlow f).Edge j i ↔
      ∃ c ∈ f.liveConnections, c.sourceNode = m.id ∧ c.targetNode = n.id := by
  have hends : ∀ (id : String) {k : Nat} {p : Node}, f.liveNodes[k]? = some p →
      (placeIn f.liveNodes id = some k ↔ id = p.id) := by
    intro id k p hp
    constructor
    · intro h
      obtain ⟨q, hq, hid, -⟩ := placeIn_eq_some_iff.mp h
      exact hid ▸ congrArg Node.id (Option.some.inj (hq.symm.trans hp))
    · rintro rfl
      exact place?_id (g := Graph.ofFlow f) hids hp
  simp only [ofFlow_edge_iff, edgeIn?_eq_some_iff, hends _ hn, hends _ hm]

/-- The nodes that a note names are those that its node reads from and that were not placed. -/
theorem Graph.mem_waits_iff {f : Flow} (hids : (f.liveNodes.map (·.id)).Nodup) {i : Nat} {n : Node}
    (hn : f.liveNodes[i]? = some n) (m : Node) :
    m ∈ (Graph.ofFlow f).nodesAt ((Graph.ofFlow f).openSources i) ↔
      ∃ j, f.liveNodes[j]? = some m ∧ j ∉ (Graph.ofFlow f).placed ∧
        ∃ c ∈ f.liveConnections, c.sourceNode = m.id ∧ c.targetNode = n.id := by
  rw [nodesAt, List.mem_filterMap]
  refine exists_congr fun j => ?_
  rw [mem_openSources_iff (ofFlow_inside f)]
  constructor
  · rintro ⟨⟨hedge, hj⟩, hm⟩
    exact ⟨hm, hj, (ofFlow_edge_iff_ids hids hn hm).mp hedge⟩
  · rintro ⟨hm, hj, hwire⟩
    exact ⟨⟨(ofFlow_edge_iff_ids hids hn hm).mpr hwire, hj⟩, hm⟩

/-- When the ids of the nodes differ, a compilation notes exactly the nodes that the dependency
order leaves over and no reported cycle holds, each once. The note names the nodes that the node
reads from and that were left over too, and there is at least one of them. -/
theorem blocked_nodes_explained (f : Flow) (stamp : String)
    (hids : (f.liveNodes.map (·.id)).Nodup) :
    let g := Graph.ofFlow f
    let notes := (f.compileAt stamp).diagnostics.filter (fun d => d.code = .blockedByCycle)
    (∀ i n, f.liveNodes[i]? = some n →
      (g.Blocked i → ∃ waits, notes.filter (fun d => d.nodeId = n.id) = [blockedNote n waits] ∧
        waits ≠ [] ∧
        ∀ m, m ∈ waits ↔ ∃ j, f.liveNodes[j]? = some m ∧ j ∉ g.placed ∧
          ∃ c ∈ f.liveConnections, c.sourceNode = m.id ∧ c.targetNode = n.id) ∧
      (¬ g.Blocked i → notes.filter (fun d => d.nodeId = n.id) = [])) ∧
    ∀ d ∈ notes, ∃ i n, f.liveNodes[i]? = some n ∧ g.Blocked i ∧ d.nodeId = n.id := by
  intro g notes
  have hg : g.Inside := Graph.ofFlow_inside f
  have hnotes : notes = blockedNotes g (g.idsAt g.placed) (g.cycles.map g.idsAt).flatten :=
    (ordering_notes f stamp (by decide)).trans (blockedNotes_ordering g hg)
  rw [hnotes]
  refine ⟨fun i n hn => ⟨fun hi => ⟨g.nodesAt (g.openSources i), ?_, ?_, ?_⟩, fun hi => ?_⟩, ?_⟩
  · rw [filter_blockedNotes hids hn,
      List.filter_cons_of_pos (by exact (isNoted_iff hids hn).mpr hi)]
    rfl
  · -- the node reads from a node that was left over, and that node is in the flow
    obtain ⟨j, hj⟩ := List.exists_mem_of_ne_nil _ (Graph.openSources_ne_nil hg hi.1 hi.2.1)
    have hlt : j < g.nodes.length := (hg j i ((Graph.mem_openSources_iff hg).mp hj).1).1
    exact List.ne_nil_of_mem (List.mem_filterMap.mpr ⟨j, hj, List.getElem?_eq_getElem hlt⟩)
  · exact Graph.mem_waits_iff hids hn
  · rw [filter_blockedNotes hids hn,
      List.filter_cons_of_neg (by exact fun h => hi ((isNoted_iff hids hn).mp h))]
    rfl
  · exact fun d hd => blocked_of_mem_blockedNotes hids hd

/-- A node with an input and an output, named after its id. -/
def relay (id : String) : Node :=
  { id, name := id, kind := .function
    inputs := [some { id := "in", name := "x", nodeId := id }]
    outputs := [some { id := "out", name := "x", nodeId := id, direction := .output }] }

/-- Two nodes read from each other, and a third one reads from the second. -/
def stuckFlow : Flow :=
  { nodes := [some (relay "a"), some (relay "b"), some (relay "d")]
    connections := [some ⟨"u", "a", "out", "b", "in"⟩, some ⟨"v", "b", "out", "a", "in"⟩,
      some ⟨"w", "b", "out", "d", "in"⟩] }

/-- The note of the third node names the second one and not the first, which has no note itself. -/
theorem stuckFlow_third_waits_for_second :
    (stuckFlow.liveNodes.map (·.id)).Nodup ∧
    (∃ waits,
      ((stuckFlow.compileAt "").diagnostics.filter (fun d => d.code = .blockedByCycle)).filter
        (fun d => d.nodeId = "d") = [blockedNote (relay "d") waits] ∧
      relay "b" ∈ waits ∧ relay "a" ∉ waits) ∧
    ((stuckFlow.compileAt "").diagnostics.filter (fun d => d.code = .blockedByCycle)).filter
        (fun d => d.nodeId = "a") = [] := by
  have hids : (stuckFlow.liveNodes.map (·.id)).Nodup := by decide
  obtain ⟨hnodes, -⟩ := blocked_nodes_explained stuckFlow "" hids
  have hg := Graph.ofFlow_inside stuckFlow
  have hblocked : (Graph.ofFlow stuckFlow).Blocked 2 := by
    refine ⟨by decide, by decide +kernel, fun group hgroup hmem => ?_⟩
    -- no edge leaves the third node
    have hcycle := (Graph.mem_cycles_iff_onCycle hg).mp ⟨group, hgroup, hmem⟩
    obtain ⟨k, hedge, -⟩ := TransGen.head'_iff.mp hcycle
    have hedges : ∀ e ∈ (Graph.ofFlow stuckFlow).edges, e.1 ≠ 2 := by decide +kernel
    exact hedges _ hedge rfl
  have hcycle : ¬ (Graph.ofFlow stuckFlow).Blocked 0 := by
    rintro ⟨-, -, hnone⟩
    have hloop : (Graph.ofFlow stuckFlow).OnCycle 0 :=
      (TransGen.single (show (0, 1) ∈ (Graph.ofFlow stuckFlow).edges by decide +kernel)).tail
        (show (1, 0) ∈ (Graph.ofFlow stuckFlow).edges by decide +kernel)
    obtain ⟨group, hgroup, hmem⟩ := (Graph.mem_cycles_iff_onCycle hg).mpr hloop
    exact hnone group hgroup hmem
  obtain ⟨waits, hnote, -, hwaits⟩ := (hnodes 2 (relay "d") rfl).1 hblocked
  refine ⟨hids, ⟨waits, hnote, ?_, ?_⟩, (hnodes 0 (relay "a") rfl).2 hcycle⟩
  · exact (hwaits _).mpr
      ⟨1, rfl, by decide +kernel, ⟨"w", "b", "out", "d", "in"⟩, by decide +kernel, rfl, rfl⟩
  · intro hmem
    obtain ⟨-, -, -, c, hc, hsource, htarget⟩ := (hwaits _).mp hmem
    revert c
    decide +kernel

end FlowScript
