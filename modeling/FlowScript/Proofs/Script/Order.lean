import FlowScript.Proofs.Graph.Cycles
import FlowScript.Proofs.Script.Plan

/-!
# Order and cycles of a compilation

Every node of a flow gets one block. Without cycles the blocks follow the dependencies; with cycles
there is one finding about them, and it names a cycle.

## Main results

- `cycleNotes_of_ordered`, `cycleNotes_of_not_ordered` — when a compilation reports a cycle
- `cycleNote_names` — the message of the finding shows every cycle that was found
- `compileAt_order_and_cycles` — order, blocks and cycle report of every compilation
-/

namespace FlowScript

namespace Script

/-- The findings of a compilation that are about cycles. -/
def cycleNotes (diagnostics : List Diagnostic) : List Diagnostic :=
  diagnostics.filter (fun d => d.code = .cycle)

theorem cycleNotes_append (as bs : List Diagnostic) :
    cycleNotes (as ++ bs) = cycleNotes as ++ cycleNotes bs :=
  List.filter_append ..

theorem cycleNotes_eq_nil {diagnostics : List Diagnostic}
    (h : ∀ d ∈ diagnostics, d.code ≠ .cycle) : cycleNotes diagnostics = [] := by
  simpa [cycleNotes, List.filter_eq_nil_iff] using h

/-- Gathering the nodes and writing their blocks never reports a cycle. -/
theorem cycleNotes_compileAt (f : Flow) (stamp : String) :
    cycleNotes (f.compileAt stamp).diagnostics =
      cycleNotes (Ordering.ofGraph (Graph.ofFlow f)).diagnostics := by
  have hcollected : cycleNotes (Plan.ofFlow f).collected.diagnostics = [] := by
    refine cycleNotes_eq_nil ?_
    intro d hd
    have hcode : d.code ∈ gatheringCodes := collect_diagnostics_code hd
    intro he
    rw [he] at hcode
    simp [gatheringCodes] at hcode
  have hinputs : cycleNotes
      ((Plan.ofFlow f).nodes.flatMap (inputNotes f (Plan.ofFlow f).collected)) = [] := by
    refine cycleNotes_eq_nil ?_
    intro d hd
    obtain ⟨p, -, hp⟩ := List.mem_flatMap.mp hd
    unfold inputNotes at hp
    split at hp
    · obtain ⟨port, -, rfl⟩ := List.mem_map.mp hp
      simp
    · simp at hp
  have hsplit : (f.compileAt stamp).diagnostics =
      (Ordering.ofGraph (Graph.ofFlow f)).diagnostics ++ (Plan.ofFlow f).collected.diagnostics
        ++ (Plan.ofFlow f).nodes.flatMap (inputNotes f (Plan.ofFlow f).collected) := rfl
  rw [hsplit, cycleNotes_append, cycleNotes_append, hcollected, hinputs, List.append_nil,
    List.append_nil]

theorem cycleNotes_dangling (g : Graph) : cycleNotes (g.dangling.map danglingNote) = [] := by
  refine cycleNotes_eq_nil ?_
  intro d hd
  obtain ⟨c, -, rfl⟩ := List.mem_map.mp hd
  simp [danglingNote]

theorem cycleNotes_of_ordered {g : Graph} (h : g.isOrdered = true) :
    cycleNotes (Ordering.ofGraph g).diagnostics = [] := by
  simpa [Ordering.ofGraph, h] using cycleNotes_dangling g

theorem cycleNotes_of_not_ordered {g : Graph} (h : g.isOrdered = false) :
    cycleNotes (Ordering.ofGraph g).diagnostics = [cycleNote (g.cycles.map g.idsAt)] := by
  have hblocked : ∀ placedIds cycleIds, cycleNotes (blockedNotes g placedIds cycleIds) = [] := by
    intro placedIds cycleIds
    refine cycleNotes_eq_nil ?_
    intro d hd
    obtain ⟨n, -, rfl⟩ := List.mem_map.mp hd
    simp
  have hcons : ∀ (d : Diagnostic) (rest : List Diagnostic), d.code = .cycle →
      cycleNotes (d :: rest) = d :: cycleNotes rest := by
    intro d rest hd
    simp [cycleNotes, hd]
  simp only [Ordering.ofGraph, h, Bool.false_eq_true, if_false]
  rw [cycleNotes_append, cycleNotes_dangling, List.nil_append, hcons _ _ rfl, hblocked]

/-- The message about cycles shows each of them. -/
theorem cycleNote_names {cycles : List (List String)} {ids : List String} (h : ids ∈ cycles) :
    ∃ front back, (cycleNote cycles).message = front ++ (" [" ++ Graph.cycleText ids ++ "]") ++ back := by
  obtain ⟨before, after, rfl⟩ := List.append_of_mem h
  refine ⟨"flow contains a cycle"
      ++ String.join (before.map (fun ids => " [" ++ Graph.cycleText ids ++ "]")),
    String.join (after.map (fun ids => " [" ++ Graph.cycleText ids ++ "]"))
      ++ "; nodes are ordered by canvas position instead", ?_⟩
  apply String.toList_injective
  simp [cycleNote, Diagnostic.warning]

theorem idsAt_length {g : Graph} {places : List Nat} (h : ∀ i ∈ places, i < g.size) :
    (g.idsAt places).length = places.length := by
  induction places with
  | nil => rfl
  | cons i rest ih =>
    have hlt : i < g.nodes.length := h i List.mem_cons_self
    have hi : g.nodes[i]? = some g.nodes[i] := List.getElem?_eq_getElem hlt
    have ih' := ih (fun j hj => h j (List.mem_cons_of_mem i hj))
    simp only [Graph.idsAt] at ih' ⊢
    rw [List.filterMap_cons, hi]
    simp [ih']

end Script

open Script

/-- Every node of a flow gets exactly one block, in the order that is reported. If the graph of the
connections has no cycle, no cycle is reported and the block of the source of each connection stands
before the block of its target; otherwise exactly one finding reports cycles, and it names one of
them. Cycles are found exactly when the dependency order leaves nodes over. -/
theorem compileAt_order_and_cycles (f : Flow) (stamp : String) :
    (f.compileAt stamp).order.Perm (f.liveNodes.map (·.id)) ∧
    (∃ front, (f.compileAt stamp).script =
      front ++ driver ((Plan.ofFlow f).nodes.map (block f (Plan.ofFlow f).collected))) ∧
    (f.compileAt stamp).order = (Plan.ofFlow f).nodes.map (·.node.id) ∧
    ((Plan.ofFlow f).nodes.map (·.node)).Perm f.liveNodes ∧
    ((Graph.ofFlow f).Acyclic →
      cycleNotes (f.compileAt stamp).diagnostics = [] ∧
      ∀ c ∈ f.liveConnections, ∀ i j, Graph.edgeIn? f.liveNodes c = some (i, j) →
        (Plan.ofFlow f).Precedes i j) ∧
    (¬ (Graph.ofFlow f).Acyclic →
      ∃ d, cycleNotes (f.compileAt stamp).diagnostics = [d] ∧
        ∃ group ∈ (Graph.ofFlow f).cycles, (Graph.ofFlow f).IsCycle group ∧
          ((Graph.ofFlow f).idsAt group).length = group.length ∧
          ∃ front back, d.message =
            front ++ (" [" ++ Graph.cycleText ((Graph.ofFlow f).idsAt group) ++ "]") ++ back) ∧
    ((Graph.ofFlow f).cycles ≠ [] ↔ (Graph.ofFlow f).isOrdered = false) := by
  have hg := Graph.ofFlow_inside f
  have horder : (f.compileAt stamp).order = (Plan.ofFlow f).nodes.map (·.node.id) := rfl
  refine ⟨?_, ⟨_, rfl⟩, horder, Plan.nodes_perm f, ?_, ?_, Graph.cycles_ne_nil_iff hg⟩
  · have h := (Plan.nodes_perm f).map (·.id)
    rw [List.map_map] at h
    exact h
  · intro hac
    have hord := (Graph.isOrdered_iff_acyclic hg).mpr hac
    refine ⟨?_, ?_⟩
    · rw [cycleNotes_compileAt, cycleNotes_of_ordered hord]
    · intro c hc i j hij
      exact Plan.precedes_of_edge hord (Graph.ofFlow_edge_iff.mpr ⟨c, hc, hij⟩)
  · intro hcyc
    have hord : (Graph.ofFlow f).isOrdered = false := by
      rw [← Bool.not_eq_true, Graph.isOrdered_iff_acyclic hg]
      exact hcyc
    refine ⟨_, by rw [cycleNotes_compileAt, cycleNotes_of_not_ordered hord], ?_⟩
    obtain ⟨group, hgr⟩ := List.exists_mem_of_ne_nil _ ((Graph.cycles_ne_nil_iff hg).mpr hord)
    have hcycle := Graph.cycles_isCycle hg hgr
    have hlt : ∀ i ∈ group, i < (Graph.ofFlow f).size := by
      intro i hi
      obtain ⟨j, he, -⟩ := Relation.TransGen.head'_iff.mp (hcycle.2 i hi i hi)
      exact (hg i j he).1
    exact ⟨group, hgr, hcycle, idsAt_length hlt, cycleNote_names (List.mem_map_of_mem hgr)⟩

end FlowScript
