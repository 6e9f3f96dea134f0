import FlowScript.Proofs.Graph.Placing
import Mathlib.Order.Lattice.Nat

/-!
# Layers of the dependency order

A node stands as deep as the longest path that ends in it. Since the nodes that wait are taken first
in, first out, the dependency order goes through the graph layer by layer: at any time the nodes
that wait are of two consecutive depths at most, those of the smaller one first, and the edge that
makes a node ready comes from a node of the layer above.

## Main definitions

- `PathTo` — a path of a given number of edges ends in a place
- `depth` — the number of edges of the longest path that ends in a place
- `Placing.queued` — the nodes that have been queued so far, in order
- `Placing.Layered` — the invariant of the placing within one layer

## Main results

- `Placing.Layered.step` — one step keeps the nodes in layers
- `placed_in_layers` — the dependency order of every flow
-/

namespace FlowScript.Graph

variable {g : Graph}

/-- A path of the given number of edges ends in a place. -/
inductive PathTo (g : Graph) : Nat → Nat → Prop
  | start (i : Nat) : PathTo g 0 i
  | step {n i j : Nat} (path : PathTo g n i) (edge : g.Edge i j) : PathTo g (n + 1) j

/-- The number of edges of the longest path that ends in a place; zero if there is no longest. -/
noncomputable def depth (g : Graph) (i : Nat) : Nat :=
  sSup {n | g.PathTo n i}

/-- A longest path ends in a place, and it has as many edges as the depth tells. -/
def HasDepth (g : Graph) (i : Nat) : Prop :=
  IsGreatest {n | g.PathTo n i} (g.depth i)

theorem hasDepth_of_isGreatest {i d : Nat} (h : IsGreatest {n | g.PathTo n i} d) :
    g.HasDepth i ∧ g.depth i = d := by
  have hd : g.depth i = d := h.csSup_eq
  refine ⟨?_, hd⟩
  rw [HasDepth, hd]
  exact h

/-- Only the path without edges ends in a place that no edge leads to. -/
theorem depth_of_no_edge {i : Nat} (h : ∀ a, ¬ g.Edge a i) : g.HasDepth i ∧ g.depth i = 0 := by
  refine hasDepth_of_isGreatest ⟨.start i, ?_⟩
  intro n hn
  cases hn with
  | start => exact le_rfl
  | step _ edge => exact absurd edge (h _)

/-- A place is one deeper than the deepest place that it reads from. -/
theorem depth_of_deepest {i j : Nat} (he : g.Edge i j)
    (h : ∀ a, g.Edge a j → g.HasDepth a ∧ g.depth a ≤ g.depth i) :
    g.HasDepth j ∧ g.depth j = g.depth i + 1 := by
  refine hasDepth_of_isGreatest ⟨PathTo.step (h i he).1.1 he, ?_⟩
  intro n hn
  cases hn with
  | start => exact Nat.zero_le _
  | step path edge =>
    obtain ⟨ha, hle⟩ := h _ edge
    exact Nat.succ_le_succ (le_trans (ha.2 path) hle)

namespace Placing

variable {p : Placing} {i t : Nat} {queue ts rest : List Nat}

/-- The nodes that have been queued so far, in the order in which they were. -/
def queued (p : Placing) : List Nat :=
  p.placed.reverse ++ p.queue

theorem mem_queued {j : Nat} : j ∈ p.queued ↔ j ∈ p.queue ++ p.placed := by
  simp only [queued, List.mem_append, List.mem_reverse, or_comm]

/-- A node that is placed stays where it was queued. -/
theorem queued_take (hq : p.queue = i :: queue) :
    queued { p with queue := queue, placed := i :: p.placed } = p.queued := by
  simp [queued, hq]

theorem queued_prefix_arrive (p : Placing) (t : Nat) : p.queued <+: (p.arrive t).queued := by
  simp only [queued, arrive]
  split
  · rw [← List.append_assoc]
    exact List.prefix_append _ _
  · exact List.prefix_refl _

theorem queued_prefix_arrive_all (ts : List Nat) (p : Placing) :
    p.queued <+: (ts.foldl arrive p).queued := by
  induction ts generalizing p with
  | nil => exact List.prefix_refl _
  | cons t ts ih => exact (queued_prefix_arrive p t).trans (ih (p.arrive t))

/-- Nodes are queued behind those that have been queued before. -/
theorem queued_prefix_step (g : Graph) (p : Placing) : p.queued <+: (p.step g).queued := by
  cases hq : p.queue with
  | nil => simp [step, hq]
  | cons i queue =>
    rw [step_eq_midway hq, midway, ← queued_take hq]
    exact queued_prefix_arrive_all _ _

theorem queued_prefix_run (g : Graph) (n : Nat) (p : Placing) :
    p.queued <+: (run g n p).queued := by
  induction n generalizing p with
  | zero => exact List.prefix_refl _
  | succ n ih => exact (queued_prefix_step g p).trans (ih (p.step g))

/-- The placing while nodes of one depth are placed: the nodes that have been queued stand in
layers, those that are placed are no deeper than this depth, and those that wait are of this depth
or of the next. -/
structure Layered (g : Graph) (layer : Nat) (p : Placing) : Prop where
  deep : ∀ i ∈ p.queued, g.HasDepth i
  sorted : p.queued.Pairwise (fun i j => g.depth i ≤ g.depth j)
  placed_le : ∀ i ∈ p.placed, g.depth i ≤ layer
  le_queue : ∀ i ∈ p.queue, layer ≤ g.depth i
  queue_le : ∀ i ∈ p.queue, g.depth i ≤ layer + 1

theorem Layered.queued_le {layer : Nat} (h : Layered g layer p) {j : Nat} (hj : j ∈ p.queued) :
    g.depth j ≤ layer + 1 := by
  rcases List.mem_append.mp hj with hj | hj
  · exact Nat.le_succ_of_le (h.placed_le j (List.mem_reverse.mp hj))
  · exact h.queue_le j hj

/-- At the start the nodes wait that no edge leads to. -/
theorem mem_start_queue_iff {j : Nat} :
    j ∈ (start g).queue ↔ j < g.size ∧ ∀ a, ¬ g.Edge a j := by
  have hzero : g.inDegree j = 0 ↔ ∀ a, ¬ g.Edge a j := by
    rw [← openEdges_nil, openEdges_eq_zero_iff]
    simp only [List.not_mem_nil, imp_false]
  simp [start, hzero]

theorem Layered.start (g : Graph) : Layered g 0 (start g) := by
  have hqueued : (Placing.start g).queued = (Placing.start g).queue := rfl
  have hdepth : ∀ j ∈ (Placing.start g).queue, g.HasDepth j ∧ g.depth j = 0 :=
    fun j hj => depth_of_no_edge (mem_start_queue_iff.mp hj).2
  refine ⟨?_, ?_, ?_, ?_, ?_⟩
  · exact fun j hj => (hdepth j (hqueued ▸ hj)).1
  · rw [hqueued]
    exact List.pairwise_of_forall_mem_list fun i hi j _ =>
      le_of_eq_of_le (hdepth i hi).2 (Nat.zero_le _)
  · exact fun j hj => absurd hj List.not_mem_nil
  · exact fun j _ => Nat.zero_le _
  · exact fun j hj => le_of_eq_of_le (hdepth j hj).2 (Nat.zero_le _)

/-- Taking the node at the head of the queue moves on to its depth. -/
theorem Layered.take {layer : Nat} (h : Layered g layer p) (hq : p.queue = i :: queue) :
    Layered g (g.depth i) { p with queue := queue, placed := i :: p.placed } := by
  have hi : i ∈ p.queue := hq ▸ List.mem_cons_self
  have hsorted : p.queue.Pairwise (fun i j => g.depth i ≤ g.depth j) :=
    (List.pairwise_append.mp h.sorted).2.1
  rw [hq, List.pairwise_cons] at hsorted
  refine ⟨?_, ?_, ?_, hsorted.1, ?_⟩
  · rw [queued_take hq]
    exact h.deep
  · rw [queued_take hq]
    exact h.sorted
  · intro j hj
    rcases List.mem_cons.mp hj with rfl | hj
    · exact le_rfl
    · exact le_trans (h.placed_le j hj) (h.le_queue i hi)
  · intro j hj
    have hle := h.queue_le j (hq ▸ List.mem_cons_of_mem i hj)
    exact le_trans hle (Nat.succ_le_succ (h.le_queue i hi))

/-- A node that becomes ready is one deeper than the node that is placed: the last edge into it
comes from there, and the others come from nodes that are no deeper. -/
theorem Layered.depth_of_ready (h : Layered g (g.depth i) p) (hs : Sound g (t :: rest) p)
    (he : g.Edge i t) (ht : t < g.size) (hready : p.pending.getD t 0 - 1 = 0) :
    g.HasDepth t ∧ g.depth t = g.depth i + 1 := by
  have hcount := hs.counts t ht
  rw [List.count_cons_self] at hcount
  have hsources : ∀ a, g.Edge a t → a ∈ p.placed := openEdges_eq_zero_iff.mp (by omega)
  refine depth_of_deepest he ?_
  intro a ha
  have hplaced := hsources a ha
  exact ⟨h.deep a (mem_queued.mpr (List.mem_append_right _ hplaced)), h.placed_le a hplaced⟩

/-- A node of the next depth can be queued. -/
theorem Layered.push {layer : Nat} {p' : Placing} (h : Layered g layer p)
    (hplaced : p'.placed = p.placed) (hqueue : p'.queue = p.queue ++ [t])
    (ht : g.HasDepth t ∧ g.depth t = layer + 1) : Layered g layer p' := by
  obtain ⟨hdeep, hdepth⟩ := ht
  have hqueued : p'.queued = p.queued ++ [t] := by
    rw [queued, hplaced, hqueue, ← List.append_assoc, queued]
  refine ⟨?_, ?_, ?_, ?_, ?_⟩
  · rw [hqueued, List.forall_mem_append]
    exact ⟨h.deep, List.forall_mem_singleton.mpr hdeep⟩
  · rw [hqueued, List.pairwise_append]
    refine ⟨h.sorted, List.pairwise_singleton _ _, ?_⟩
    intro a ha b hb
    rw [List.mem_singleton.mp hb, hdepth]
    exact h.queued_le ha
  · rw [hplaced]
    exact h.placed_le
  · rw [hqueue, List.forall_mem_append]
    exact ⟨h.le_queue, List.forall_mem_singleton.mpr (by omega)⟩
  · rw [hqueue, List.forall_mem_append]
    exact ⟨h.queue_le, List.forall_mem_singleton.mpr (by omega)⟩

/-- The arrival of an edge from the node that is placed keeps the layers. -/
theorem Layered.arrive (h : Layered g (g.depth i) p) (hs : Sound g (t :: rest) p)
    (he : g.Edge i t) (ht : t < g.size) : Layered g (g.depth i) (p.arrive t) := by
  by_cases hready : p.pending.getD t 0 - 1 = 0
  · refine h.push rfl ?_ (h.depth_of_ready hs he ht hready)
    simp only [Placing.arrive, if_pos hready]
  · have hqueue : (p.arrive t).queue = p.queue := by simp only [Placing.arrive, if_neg hready]
    have hqueued : (p.arrive t).queued = p.queued := by rw [queued, hqueue]; rfl
    exact ⟨hqueued ▸ h.deep, hqueued ▸ h.sorted, h.placed_le, hqueue ▸ h.le_queue,
      hqueue ▸ h.queue_le⟩

theorem Layered.arrive_all (h : Layered g (g.depth i) p) (hs : Sound g (ts ++ rest) p)
    (hts : ∀ t ∈ ts, g.Edge i t ∧ t < g.size) :
    Layered g (g.depth i) (ts.foldl Placing.arrive p) := by
  induction ts generalizing p with
  | nil => exact h
  | cons t ts ih =>
    obtain ⟨he, ht⟩ := hts t List.mem_cons_self
    exact ih (h.arrive hs he ht) (Sound.arrive hs ht)
      (fun s hs => hts s (List.mem_cons_of_mem t hs))

theorem mem_targets {j : Nat} : j ∈ g.targets i ↔ g.Edge i j := by
  simp [targets, Edge]

/-- A step places the node at the head of the queue, and with it the placing moves on to the depth
of that node. -/
theorem Layered.step (hg : g.Inside) {layer : Nat} (h : Layered g layer p) (hs : Sound g [] p) :
    ∃ d, Layered g d (p.step g) := by
  cases hq : p.queue with
  | nil =>
    refine ⟨layer, ?_⟩
    simpa [Placing.step, hq] using h
  | cons i queue =>
    refine ⟨g.depth i, ?_⟩
    rw [step_eq_midway hq, midway]
    have hsound := hs.take hq
    rw [← List.append_nil (g.targets i)] at hsound
    exact (h.take hq).arrive_all hsound (fun t ht => ⟨mem_targets.mp ht, targets_lt hg ht⟩)

theorem Layered.run (hg : g.Inside) {layer : Nat} (h : Layered g layer p) (hs : Sound g [] p)
    (n : Nat) : ∃ d, Layered g d (Placing.run g n p) := by
  induction n generalizing p layer with
  | zero => exact ⟨layer, h⟩
  | succ n ih =>
    obtain ⟨d, hd⟩ := h.step hg hs
    exact ih hd (hs.step hg)

theorem queued_final (hg : g.Inside) : (final g).queued = g.placed := by
  rw [queued, final_queue hg, List.append_nil, placed_eq_final]

/-- The nodes that wait are of two consecutive depths at most, those of the smaller one first. -/
theorem Layered.pairwise_queue {layer : Nat} (h : Layered g layer p) :
    p.queue.Pairwise (fun i j => g.depth i ≤ g.depth j ∧ g.depth j ≤ g.depth i + 1) := by
  have hsorted := (List.pairwise_append.mp h.sorted).2.1
  refine hsorted.imp_of_mem ?_
  intro i j hi hj hij
  exact ⟨hij, le_trans (h.queue_le j hj) (Nat.succ_le_succ (h.le_queue i hi))⟩

/-- The nodes that wait at the start are the first of the order. -/
theorem start_queue_prefix_placed (hg : g.Inside) : (start g).queue <+: g.placed := by
  rw [← queued_final hg]
  exact queued_prefix_run g g.size (start g)

end Placing

/-- The dependency order of a flow goes layer by layer. Every node in it has a depth, the length of
the longest path of connections between nodes that ends in it, and the nodes stand in the order of
their depths. First come the nodes that no connection from a node leads to, in flow order. At any
time on the way, no node waits behind a deeper one, or behind one that is less deep by more than
one. -/
theorem placed_in_layers (f : Flow) :
    (∀ i ∈ (ofFlow f).placed,
      IsGreatest {n | (ofFlow f).PathTo n i} ((ofFlow f).depth i)) ∧
    (ofFlow f).placed.Pairwise (fun i j => (ofFlow f).depth i ≤ (ofFlow f).depth j) ∧
    (∃ first rest, (ofFlow f).placed = first ++ rest ∧ first.Pairwise (· < ·) ∧
      ∀ i, i ∈ first ↔ i < f.liveNodes.length ∧
        ∀ c ∈ f.liveConnections, ∀ a, edgeIn? f.liveNodes c ≠ some (a, i)) ∧
    ∀ n, (Placing.run (ofFlow f) n (Placing.start (ofFlow f))).queue.Pairwise (fun i j =>
      (ofFlow f).depth i ≤ (ofFlow f).depth j ∧ (ofFlow f).depth j ≤ (ofFlow f).depth i + 1) := by
  have hg := ofFlow_inside f
  have hrun := (Placing.Layered.start (ofFlow f)).run hg (Placing.Sound.start _)
  obtain ⟨d, hfinal⟩ : ∃ d, Placing.Layered (ofFlow f) d (Placing.final (ofFlow f)) := hrun _
  have hdeep := hfinal.deep
  have hsorted := hfinal.sorted
  rw [Placing.queued_final hg] at hdeep hsorted
  refine ⟨hdeep, hsorted, ?_, ?_⟩
  · obtain ⟨rest, hrest⟩ := Placing.start_queue_prefix_placed hg
    refine ⟨_, rest, hrest.symm, List.pairwise_lt_range.filter _, ?_⟩
    intro i
    simp only [Placing.mem_start_queue_iff, ofFlow_edge_iff, not_exists, not_and]
    exact and_congr_right fun _ => ⟨fun h c hc a => h a c hc, fun h a c hc => h c hc a⟩
  · intro n
    obtain ⟨d, hn⟩ := hrun n
    exact hn.pairwise_queue

end FlowScript.Graph
