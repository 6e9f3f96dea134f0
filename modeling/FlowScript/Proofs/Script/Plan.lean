import FlowScript.Proofs.Graph.Placing
import FlowScript.Proofs.Script.Collect
import FlowScript.Script.Compile

/-!
# The order of the blocks

A plan lists every node of a flow once, whether dependencies or the canvas give the order, and a plan
in dependency order has every node behind the nodes it reads from.

## Main definitions

- `Plan.Precedes` — the block of one place stands before the block of another

## Main results

- `ordering_places_perm` — the order of the blocks lists every place once
- `Plan.nodes_perm` — the blocks are those of the nodes of the flow
- `Plan.precedes_of_edge` — without cycles, an edge leads from an earlier to a later block
-/

namespace FlowScript

namespace Script

variable {nodes : List Node} {places : List Nat}

theorem mem_placedNodes_iff {p : Placed} :
    p ∈ placedNodes nodes places ↔
      p.place ∈ places ∧ nodes[p.place]? = some p.node ∧
        p.name = (nodeNames nodes).getD p.place "" := by
  simp only [placedNodes, List.mem_filterMap, Option.map_eq_some_iff]
  constructor
  · rintro ⟨i, hi, n, hn, rfl⟩
    exact ⟨hi, hn, rfl⟩
  · rintro ⟨hi, hn, hname⟩
    exact ⟨p.place, hi, p.node, hn, by rw [← hname]⟩

/-- Places of the list of nodes keep their order. -/
theorem placedNodes_map_place (h : ∀ i ∈ places, i < nodes.length) :
    (placedNodes nodes places).map (·.place) = places := by
  induction places with
  | nil => rfl
  | cons i rest ih =>
    have hlt : i < nodes.length := h i List.mem_cons_self
    have hi : nodes[i]? = some nodes[i] := List.getElem?_eq_getElem hlt
    have ih' := ih (fun j hj => h j (List.mem_cons_of_mem i hj))
    simp only [placedNodes] at ih' ⊢
    rw [List.filterMap_cons, hi]
    simp only [Option.map_some, List.map_cons, ih']

theorem placedNodes_append (nodes : List Node) (as bs : List Nat) :
    placedNodes nodes (as ++ bs) = placedNodes nodes as ++ placedNodes nodes bs := by
  simp [placedNodes, List.filterMap_append]

theorem placedNodes_cons {i : Nat} {n : Node} (hn : nodes[i]? = some n) (rest : List Nat) :
    placedNodes nodes (i :: rest) =
      ⟨i, (nodeNames nodes).getD i "", n⟩ :: placedNodes nodes rest := by
  simp [placedNodes, hn]

theorem placedNodes_map_node (nodes : List Node) (places : List Nat) :
    (placedNodes nodes places).map (·.node) = places.filterMap (fun i => nodes[i]?) := by
  simp [placedNodes, List.map_filterMap, Function.comp_def]

theorem filterMap_getElem?_range (nodes : List Node) :
    (List.range nodes.length).filterMap (fun i => nodes[i]?) = nodes := by
  induction nodes with
  | nil => rfl
  | cons n rest ih =>
    rw [List.length_cons, List.range_succ_eq_map, List.filterMap_cons]
    simpa [List.filterMap_map, Function.comp_def] using ih

theorem canvasOrder_perm (g : Graph) : g.canvasOrder.Perm (List.range g.size) :=
  List.mergeSort_perm _ _

/-- The order of the blocks lists every place once. -/
theorem ordering_places_perm {g : Graph} (hg : g.Inside) :
    (Ordering.ofGraph g).places.Perm (List.range g.size) := by
  unfold Ordering.ofGraph
  by_cases h : g.isOrdered = true
  · simp only [h, if_true]
    exact Graph.placed_perm_range hg h
  · simp only [h, if_false, Bool.false_eq_true]
    exact canvasOrder_perm g

theorem ordering_places_of_ordered {g : Graph} (h : g.isOrdered = true) :
    (Ordering.ofGraph g).places = g.placed := by
  simp [Ordering.ofGraph, h]

namespace Plan

/-- The block of the node at place `i` stands before the block of the node at place `j`. -/
def Precedes (plan : Plan) (i j : Nat) : Prop :=
  ∃ before between after p q,
    plan.nodes = before ++ p :: (between ++ q :: after) ∧ p.place = i ∧ q.place = j

variable (f : Flow)

theorem ofFlow_nodes :
    (ofFlow f).nodes = placedNodes f.liveNodes (Ordering.ofGraph (Graph.ofFlow f)).places :=
  rfl

theorem ofFlow_collected : (ofFlow f).collected = collect (ofFlow f).nodes :=
  rfl

theorem ofFlow_places_perm :
    (Ordering.ofGraph (Graph.ofFlow f)).places.Perm (List.range f.liveNodes.length) :=
  ordering_places_perm (Graph.ofFlow_inside f)

/-- The places of the blocks, in order. -/
theorem map_place :
    (ofFlow f).nodes.map (·.place) = (Ordering.ofGraph (Graph.ofFlow f)).places := by
  refine placedNodes_map_place ?_
  intro i hi
  exact List.mem_range.mp ((ofFlow_places_perm f).mem_iff.mp hi)

theorem places_nodup : ((ofFlow f).nodes.map (·.place)).Nodup := by
  rw [map_place, (ofFlow_places_perm f).nodup_iff]
  exact List.nodup_range

/-- The nodes of the blocks are the nodes of the flow. -/
theorem nodes_perm : ((ofFlow f).nodes.map (·.node)).Perm f.liveNodes := by
  rw [ofFlow_nodes, placedNodes_map_node]
  have h := (ofFlow_places_perm f).filterMap (fun i => f.liveNodes[i]?)
  rwa [filterMap_getElem?_range] at h

variable {f}

theorem node_at {p : Placed} (hp : p ∈ (ofFlow f).nodes) : f.liveNodes[p.place]? = some p.node :=
  (mem_placedNodes_iff.mp hp).2.1

theorem name_at {p : Placed} (hp : p ∈ (ofFlow f).nodes) :
    p.name = (nodeNames f.liveNodes).getD p.place "" :=
  (mem_placedNodes_iff.mp hp).2.2

/-- Two blocks of one place are the same. -/
theorem eq_of_place {p q : Placed} (hp : p ∈ (ofFlow f).nodes) (hq : q ∈ (ofFlow f).nodes)
    (h : p.place = q.place) : p = q := by
  have hn := (node_at hp).symm.trans (h ▸ node_at hq)
  have hname := (name_at hp).trans (h ▸ (name_at hq).symm)
  cases p
  cases q
  simp_all

/-- When the dependencies give the order, an edge leads from an earlier to a later block. -/
theorem precedes_of_edge (h : (Graph.ofFlow f).isOrdered = true) {i j : Nat}
    (he : (Graph.ofFlow f).Edge i j) : (ofFlow f).Precedes i j := by
  have hg := Graph.ofFlow_inside f
  have hlt : i < f.liveNodes.length ∧ j < f.liveNodes.length := hg i j he
  obtain ⟨hilt, hjlt⟩ := hlt
  have hj := (Graph.isOrdered_iff_forall_mem hg).mp h j hjlt
  -- the source stands in front of the target in the order of the places
  obtain ⟨earlier, after, hplaced⟩ := List.append_of_mem hj
  obtain ⟨before, between, rfl⟩ :=
    List.append_of_mem (Graph.placed_sources_before hg hplaced he)
  have hi : f.liveNodes[i]? = some f.liveNodes[i] := List.getElem?_eq_getElem hilt
  have hj : f.liveNodes[j]? = some f.liveNodes[j] := List.getElem?_eq_getElem hjlt
  refine ⟨placedNodes f.liveNodes before, placedNodes f.liveNodes between,
    placedNodes f.liveNodes after, ⟨i, (nodeNames f.liveNodes).getD i "", f.liveNodes[i]⟩,
    ⟨j, (nodeNames f.liveNodes).getD j "", f.liveNodes[j]⟩, ?_, rfl, rfl⟩
  rw [ofFlow_nodes, ordering_places_of_ordered h, hplaced, List.append_assoc, List.cons_append,
    placedNodes_append, placedNodes_cons hi, placedNodes_append, placedNodes_cons hj]

end Plan

end Script

end FlowScript
