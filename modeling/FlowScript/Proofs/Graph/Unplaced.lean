import FlowScript.Proofs.Graph.Placing

/-!
# What the dependency order leaves out

The nodes that are never placed are those on a cycle and those that wait, directly or through others,
for a node on a cycle. Every other node is placed once, behind the nodes it reads from. On the way
every edge is counted off once: the counter of a node is not used up before its last edge comes, so
no node is queued again.

## Main definitions

- `Graph.BehindCycle` — a path of zero or more edges leads here from a cycle

## Main results

- `mem_placed_iff_not_behindCycle` — which nodes are placed
- `Placing.awaits_arrival` — an edge comes to a node that still waits for it
- `placed_exactly` — the order of every flow
-/

namespace FlowScript.Graph

variable {g : Graph}

/-- A path of zero or more edges leads to `i` from a place on a cycle. -/
def BehindCycle (g : Graph) (i : Nat) : Prop :=
  ∃ j, g.OnCycle j ∧ g.Reach j i

/-- What a path leads to is placed only if the start of the path is. -/
theorem Reach.mem_placed (hg : g.Inside) {i j : Nat} (h : g.Reach i j) (hj : j ∈ g.placed) :
    i ∈ g.placed := by
  by_contra hi
  refine h.closed (P := (· ∉ g.placed)) ?_ hi hj
  intro a b ha he hb
  exact ha ((mem_placed_iff hg (placed_lt hg hb)).mp hb a he)

/-- A node is placed exactly when it is neither on a cycle nor behind one. -/
theorem mem_placed_iff_not_behindCycle (hg : g.Inside) {i : Nat} (hi : i < g.size) :
    i ∈ g.placed ↔ ¬ g.BehindCycle i := by
  constructor
  · rintro hplaced ⟨j, hcycle, hreach⟩
    exact not_onCycle_of_placed hg (hreach.mem_placed hg hplaced) hcycle
  · intro hfree
    by_contra hnot
    -- a node that is left over reads from another one of them, and so on back to a cycle
    obtain ⟨j, ⟨-, -, hreach⟩, hcycle⟩ := exists_onCycle_of_sources
      (fun a => a < g.size ∧ a ∉ g.placed ∧ g.Reach a i) (fun _ ha => ha.1) (by
        rintro a ⟨ha, hna, hreach⟩
        rw [mem_placed_iff hg ha] at hna
        push Not at hna
        obtain ⟨b, he, hnb⟩ := hna
        exact ⟨b, ⟨(hg b a he).1, hnb, he.reach.trans hreach⟩, he⟩)
      ⟨hi, hnot, Reach.refl i⟩
    exact hfree ⟨j, hcycle, hreach⟩

/-- The source of an edge to a placed node stands somewhere before the node. -/
theorem placed_split_of_edge (hg : g.Inside) {i j : Nat} (he : g.Edge i j) (hj : j ∈ g.placed) :
    ∃ before between after, g.placed = before ++ i :: (between ++ j :: after) := by
  obtain ⟨earlier, after, hplaced⟩ := List.append_of_mem hj
  obtain ⟨before, between, rfl⟩ := List.append_of_mem (placed_sources_before hg hplaced he)
  exact ⟨before, between, after, by simpa using hplaced⟩

namespace Placing

variable {p : Placing} {i t : Nat} {queue came coming : List Nat}

/-- A node that an edge is still to come to has not used up its counter and is not queued yet. -/
theorem Sound.awaits (h : Sound g (t :: coming) p) (ht : t < g.size) :
    0 < p.pending.getD t 0 ∧ t ∉ p.queue ++ p.placed := by
  have hcount := h.counts t ht
  rw [List.count_cons_self] at hcount
  refine ⟨by omega, ?_⟩
  rw [h.ready t ht]
  omega

/-- Whenever an edge comes, its target still waits for it. -/
theorem awaits_arrival (hg : g.Inside) (n : Nat) (hq : (run g n (start g)).queue = i :: queue)
    (ht : g.targets i = came ++ t :: coming) :
    0 < ((run g n (start g)).midway i queue came).pending.getD t 0 ∧
      t ∉ ((run g n (start g)).midway i queue came).queue ++
        ((run g n (start g)).midway i queue came).placed := by
  refine (((Sound.start g).run hg n).midway hg hq ht).awaits ?_
  exact targets_lt hg (ht ▸ List.mem_append_right _ List.mem_cons_self)

end Placing

/-- The dependency order of a flow is exact. A node stands in it at most once, and it does so exactly
when no path leads to it from a cycle; the source of every connection between nodes stands before its
target, if the target is placed; and every node is placed exactly when there is no cycle. The placing
ends with nothing left in the queue; what was queued on the way differs, and whenever an edge is
counted off, the counter of its target is above zero and the target has never been queued. -/
theorem placed_exactly (f : Flow) :
    (ofFlow f).placed.Nodup ∧
    (∀ i, i ∈ (ofFlow f).placed ↔ i < f.liveNodes.length ∧ ¬ (ofFlow f).BehindCycle i) ∧
    (∀ c ∈ f.liveConnections, ∀ i j, edgeIn? f.liveNodes c = some (i, j) →
      j ∈ (ofFlow f).placed →
      ∃ before between after, (ofFlow f).placed = before ++ i :: (between ++ j :: after)) ∧
    ((ofFlow f).isOrdered = true ↔ ∀ i, ¬ (ofFlow f).OnCycle i) ∧
    (Placing.final (ofFlow f)).queue = [] ∧
    (∀ n, ((Placing.run (ofFlow f) n (Placing.start (ofFlow f))).queue ++
      (Placing.run (ofFlow f) n (Placing.start (ofFlow f))).placed).Nodup) ∧
    ∀ n i queue came t coming,
      (Placing.run (ofFlow f) n (Placing.start (ofFlow f))).queue = i :: queue →
      (ofFlow f).targets i = came ++ t :: coming →
      let p := (Placing.run (ofFlow f) n (Placing.start (ofFlow f))).midway i queue came
      0 < p.pending.getD t 0 ∧ t ∉ p.queue ++ p.placed := by
  have hg := ofFlow_inside f
  refine ⟨placed_nodup hg, ?_, ?_, isOrdered_iff_acyclic hg, Placing.final_queue hg,
    fun n => ((Placing.Sound.start _).run hg n).nodup, ?_⟩
  · intro i
    constructor
    · intro hi
      have hlt := placed_lt hg hi
      exact ⟨hlt, (mem_placed_iff_not_behindCycle hg hlt).mp hi⟩
    · rintro ⟨hlt, hfree⟩
      exact (mem_placed_iff_not_behindCycle hg hlt).mpr hfree
  · intro c hc i j hij hj
    exact placed_split_of_edge hg (ofFlow_edge_iff.mpr ⟨c, hc, hij⟩) hj
  · intro n i queue came t coming hq ht
    exact Placing.awaits_arrival hg n hq ht

end FlowScript.Graph
