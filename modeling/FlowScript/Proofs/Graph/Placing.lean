import FlowScript.Graph.Order
import FlowScript.Proofs.Graph.Path
import Mathlib.Data.List.Nodup
import Mathlib.Data.Finset.Card
import Mathlib.Data.Finset.Range

/-!
# The dependency order

What the placing of nodes keeps from step to step, and what it has achieved when it ends. A node is
ready exactly when every edge into it comes from a placed node; so the placed nodes stand behind
everything they read from, and all nodes are placed exactly when the graph has no cycle.

## Main definitions

- `openEdges` — how many edges into a node come from nodes that are not placed
- `Placing.Sound` — the invariant of the placing
- `Placing.midway` — the placing between two edges of the node that is placed

## Main results

- `Placing.Sound.step` — one step keeps the invariant
- `placed_nodup`, `mem_placed_iff`, `placed_sources_before` — the finished order
- `isOrdered_iff_acyclic` — every node is placed exactly when there is no cycle
-/

namespace FlowScript.Graph

variable {g : Graph}

/-- The number of edges into `j` from places outside of `placed`. -/
def openEdges (g : Graph) (placed : List Nat) (j : Nat) : Nat :=
  g.edges.countP (fun e => e.2 == j && !placed.contains e.1)

theorem openEdges_nil (g : Graph) (j : Nat) : g.openEdges [] j = g.inDegree j := by
  simp [openEdges, inDegree, List.countP_eq_length_filter]

theorem openEdges_eq_zero_iff {placed : List Nat} {j : Nat} :
    g.openEdges placed j = 0 ↔ ∀ a, g.Edge a j → a ∈ placed := by
  simp only [openEdges, List.countP_eq_zero, Edge]
  constructor
  · intro h a ha
    have := h (a, j) ha
    simpa using this
  · rintro h ⟨a, b⟩ he
    by_cases hb : b = j
    · subst hb
      simp [h a he]
    · simp [hb]

/-- Placing one more node closes exactly the edges that leave it. -/
theorem openEdges_cons {placed : List Nat} {i : Nat} (hi : i ∉ placed) (j : Nat) :
    g.openEdges placed j = g.openEdges (i :: placed) j + (g.targets i).count j := by
  unfold openEdges targets
  rw [List.count, List.countP_map, List.countP_filter]
  induction g.edges with
  | nil => rfl
  | cons e rest ih =>
    simp only [List.countP_cons, ih]
    by_cases h1 : e.1 = i <;> by_cases h2 : e.2 = j <;> by_cases h3 : e.1 ∈ placed <;>
      simp [h1, h2, h3] <;> grind

namespace Placing

/-- The state of a placing in which the edges into the places `arriving` have still to come: the
counters tell the open edges, the waiting and placed nodes are those without any, and every placed
node stands behind the nodes it reads from. -/
structure Sound (g : Graph) (arriving : List Nat) (p : Placing) : Prop where
  length : p.pending.length = g.size
  nodup : (p.queue ++ p.placed).Nodup
  inside : ∀ i ∈ p.queue ++ p.placed, i < g.size
  counts : ∀ j, j < g.size →
    p.pending.getD j 0 = g.openEdges p.placed j + arriving.count j
  ready : ∀ j, j < g.size → (j ∈ p.queue ++ p.placed ↔ p.pending.getD j 0 = 0)
  ordered : ∀ later i earlier, p.placed = later ++ i :: earlier →
    ∀ a, g.Edge a i → a ∈ earlier

theorem start_pending (g : Graph) {j : Nat} (hj : j < g.size) :
    (start g).pending.getD j 0 = g.inDegree j := by
  simp [start, List.getD_eq_getElem?_getD, hj]

theorem Sound.start (g : Graph) : Sound g [] (start g) where
  length := by simp [Placing.start]
  nodup := by simpa [Placing.start] using (List.nodup_range).filter _
  inside := by
    intro i hi
    simp only [Placing.start, List.append_nil, List.mem_filter, List.mem_range] at hi
    exact hi.1
  counts := by
    intro j hj
    rw [start_pending g hj]
    simp [Placing.start, openEdges_nil]
  ready := by
    intro j hj
    rw [start_pending g hj]
    simp [Placing.start, hj]
  ordered := by
    intro later i earlier h
    simp [Placing.start] at h

/-- The arrival of one edge keeps the invariant. -/
theorem Sound.arrive {p : Placing} {t : Nat} {rest : List Nat} (h : Sound g (t :: rest) p)
    (ht : t < g.size) : Sound g rest (p.arrive t) := by
  have hcount := h.counts t ht
  rw [List.count_cons_self] at hcount
  -- the counter of the target is not zero yet, so the target neither waits nor is placed
  have hnot : t ∉ p.queue ++ p.placed := by
    rw [h.ready t ht]
    omega
  have hget : ∀ j, j < g.size →
      (p.arrive t).pending.getD j 0 =
        if j = t then p.pending.getD t 0 - 1 else p.pending.getD j 0 := by
    intro j hj
    have hlen := h.length
    by_cases hjt : j = t
    · subst hjt
      simp [Placing.arrive, List.getD_eq_getElem?_getD, hlen, hj]
    · simp [Placing.arrive, List.getD_eq_getElem?_getD, hjt, Ne.symm hjt]
  have hmem : ∀ j, j ∈ (p.arrive t).queue ++ (p.arrive t).placed ↔
      j ∈ p.queue ++ p.placed ∨ (j = t ∧ p.pending.getD t 0 - 1 = 0) := by
    intro j
    simp only [Placing.arrive]
    split <;> simp <;> tauto
  refine ⟨?_, ?_, ?_, ?_, ?_, h.ordered⟩
  · simpa [Placing.arrive] using h.length
  · simp only [Placing.arrive]
    split
    · have hperm : (p.queue ++ [t] ++ p.placed).Perm (t :: (p.queue ++ p.placed)) := by
        simp
      exact hperm.nodup_iff.mpr (List.nodup_cons.mpr ⟨hnot, h.nodup⟩)
    · exact h.nodup
  · intro i hi
    rcases (hmem i).mp hi with hi | ⟨rfl, -⟩
    · exact h.inside i hi
    · exact ht
  · intro j hj
    rw [hget j hj]
    by_cases hjt : j = t
    · subst hjt
      simp only [if_true, hcount, Placing.arrive]
      omega
    · have := h.counts j hj
      rw [List.count_cons_of_ne (Ne.symm hjt)] at this
      simpa [hjt, Placing.arrive] using this
  · intro j hj
    rw [hmem j, hget j hj, h.ready j hj]
    by_cases hjt : j = t
    · subst hjt
      simp only [if_true, true_and]
      omega
    · simp [hjt]

/-- The arrival of the first announced edges keeps the invariant, with the rest still to come. -/
theorem Sound.arrive_all {p : Placing} {ts rest : List Nat} (h : Sound g (ts ++ rest) p)
    (hts : ∀ t ∈ ts, t < g.size) : Sound g rest (ts.foldl Placing.arrive p) := by
  induction ts generalizing p with
  | nil => exact h
  | cons t ts ih =>
    exact ih (Sound.arrive h (hts t List.mem_cons_self))
      (fun s hs => hts s (List.mem_cons_of_mem t hs))

/-- Taking the node at the head of the queue announces the edges that leave it. -/
theorem Sound.take {p : Placing} {i : Nat} {queue : List Nat} (h : Sound g [] p)
    (hq : p.queue = i :: queue) :
    Sound g (g.targets i) { p with queue := queue, placed := i :: p.placed } := by
  have hperm : (queue ++ i :: p.placed).Perm (p.queue ++ p.placed) := by
    rw [hq]
    exact List.perm_middle
  have hnd := h.nodup
  rw [hq, List.cons_append, List.nodup_cons] at hnd
  have hi : i ∉ p.placed := fun hm => hnd.1 (List.mem_append_right _ hm)
  have hiq : i ∈ p.queue ++ p.placed := by simp [hq]
  have hlt := h.inside i hiq
  have hzero : g.openEdges p.placed i = 0 := by
    have h0 := (h.ready i hlt).mp hiq
    rw [h.counts i hlt] at h0
    simpa using h0
  refine ⟨h.length, hperm.nodup_iff.mpr h.nodup, ?_, ?_, ?_, ?_⟩
  · intro j hj
    exact h.inside j (hperm.mem_iff.mp hj)
  · intro j hj
    have := h.counts j hj
    rw [openEdges_cons hi j] at this
    simpa using this
  · intro j hj
    rw [hperm.mem_iff]
    exact h.ready j hj
  · intro later k earlier hsplit a ha
    cases later with
    | nil =>
      -- the node that is placed now had no open edge
      obtain ⟨rfl, rfl⟩ := List.cons.inj hsplit
      exact openEdges_eq_zero_iff.mp hzero a ha
    | cons l later =>
      obtain ⟨-, hrest⟩ := List.cons.inj hsplit
      exact h.ordered later k earlier hrest a ha

theorem targets_lt (hg : g.Inside) {i t : Nat} (ht : t ∈ g.targets i) : t < g.size := by
  simp only [targets, List.mem_map, List.mem_filter] at ht
  obtain ⟨⟨a, b⟩, ⟨he, -⟩, rfl⟩ := ht
  exact (hg a b he).2

/-- The node `i` at the head of the queue is placed, and the edges to the places `came` have come. -/
def midway (p : Placing) (i : Nat) (queue came : List Nat) : Placing :=
  came.foldl arrive { p with queue := queue, placed := i :: p.placed }

theorem step_eq_midway {p : Placing} {i : Nat} {queue : List Nat} (h : p.queue = i :: queue) :
    p.step g = p.midway i queue (g.targets i) := by
  simp only [Placing.step, h, midway]

/-- Between two edges of the node that is placed, the invariant holds with the other edges still to
come. -/
theorem Sound.midway (hg : g.Inside) {p : Placing} {i : Nat} {queue came coming : List Nat}
    (h : Sound g [] p) (hq : p.queue = i :: queue) (ht : g.targets i = came ++ coming) :
    Sound g coming (p.midway i queue came) := by
  have htake := h.take hq
  rw [ht] at htake
  refine htake.arrive_all ?_
  intro s hs
  exact targets_lt hg (ht ▸ List.mem_append_left _ hs)

theorem Sound.step (hg : g.Inside) {p : Placing} (h : Sound g [] p) : Sound g [] (p.step g) := by
  cases hq : p.queue with
  | nil => simpa [Placing.step, hq] using h
  | cons i queue =>
    rw [step_eq_midway hq]
    exact h.midway hg hq (List.append_nil _).symm

theorem Sound.run (hg : g.Inside) {p : Placing} (h : Sound g [] p) (n : Nat) :
    Sound g [] (Placing.run g n p) := by
  induction n generalizing p with
  | zero => exact h
  | succ n ih => exact ih (h.step hg)

theorem foldl_arrive_placed (ts : List Nat) (p : Placing) :
    (ts.foldl Placing.arrive p).placed = p.placed := by
  induction ts generalizing p with
  | nil => rfl
  | cons t rest ih => exact ih (p.arrive t)

/-- A step places one node as long as one waits. -/
theorem step_placed_length {p : Placing} (hq : p.queue ≠ []) :
    (p.step g).placed.length = p.placed.length + 1 := by
  unfold Placing.step
  split
  · next h => exact absurd h hq
  · simp [foldl_arrive_placed]

theorem run_of_queue_nil {p : Placing} (hq : p.queue = []) (n : Nat) :
    Placing.run g n p = p := by
  induction n with
  | zero => rfl
  | succ n ih =>
    have hstep : p.step g = p := by simp [Placing.step, hq]
    simp only [Placing.run, hstep, ih]

/-- After `n` steps `n` more nodes are placed, unless none waits any more. -/
theorem run_progress (n : Nat) (p : Placing) :
    (Placing.run g n p).queue = [] ∨
      (Placing.run g n p).placed.length = p.placed.length + n := by
  induction n generalizing p with
  | zero => exact Or.inr rfl
  | succ n ih =>
    by_cases hq : p.queue = []
    · left
      rw [run_of_queue_nil hq]
      exact hq
    · rcases ih (p.step g) with h | h
      · exact Or.inl h
      · right
        rw [Placing.run, h, step_placed_length hq]
        omega

/-- Different places of the graph are at most as many as the graph has nodes. -/
theorem Sound.length_le {p : Placing} (h : Sound g [] p) :
    (p.queue ++ p.placed).length ≤ g.size := by
  have hsub : (p.queue ++ p.placed).toFinset ⊆ Finset.range g.size := by
    intro i hi
    exact Finset.mem_range.mpr (h.inside i (List.mem_toFinset.mp hi))
  have hcard := Finset.card_le_card hsub
  rwa [List.toFinset_card_of_nodup h.nodup, Finset.card_range] at hcard

/-- The state in which the placing ends. -/
def final (g : Graph) : Placing :=
  Placing.run g g.size (Placing.start g)

theorem Sound.final (hg : g.Inside) : Sound g [] (final g) :=
  (Sound.start g).run hg g.size

/-- In the end no node waits to be placed. -/
theorem final_queue (hg : g.Inside) : (final g).queue = [] := by
  rcases run_progress g.size (Placing.start g) with h | h
  · exact h
  · -- as many nodes are placed as there are, so none is left to wait
    have hlen := (Sound.final hg).length_le
    have h' : (Placing.final g).placed.length = g.size := by
      rw [Placing.final, h]
      simp [Placing.start]
    rw [List.length_append, h'] at hlen
    exact List.length_eq_zero_iff.mp (by omega)

end Placing

theorem placed_eq_final (g : Graph) : g.placed = (Placing.final g).placed.reverse :=
  rfl

theorem placed_nodup (hg : g.Inside) : g.placed.Nodup := by
  rw [placed_eq_final, List.nodup_reverse]
  exact (List.nodup_append.mp (Placing.Sound.final hg).nodup).2.1

theorem placed_lt (hg : g.Inside) {i : Nat} (hi : i ∈ g.placed) : i < g.size := by
  rw [placed_eq_final, List.mem_reverse] at hi
  exact (Placing.Sound.final hg).inside i (List.mem_append_right _ hi)

/-- A node is placed exactly when every node it reads from is placed. -/
theorem mem_placed_iff (hg : g.Inside) {j : Nat} (hj : j < g.size) :
    j ∈ g.placed ↔ ∀ a, g.Edge a j → a ∈ g.placed := by
  have hs := Placing.Sound.final hg
  have hready := hs.ready j hj
  rw [Placing.final_queue hg, List.nil_append, hs.counts j hj, List.count_nil, Nat.add_zero,
    openEdges_eq_zero_iff] at hready
  simpa [placed_eq_final] using hready

/-- Every node that a placed node reads from stands before it. -/
theorem placed_sources_before (hg : g.Inside) {earlier later : List Nat} {i : Nat}
    (h : g.placed = earlier ++ i :: later) {a : Nat} (ha : g.Edge a i) : a ∈ earlier := by
  have hsplit : (Placing.final g).placed = later.reverse ++ i :: earlier.reverse := by
    have := congrArg List.reverse h
    simpa [placed_eq_final] using this
  exact List.mem_reverse.mp ((Placing.Sound.final hg).ordered _ _ _ hsplit a ha)

/-- A placed node is on no cycle: each node of the cycle would stand before the next one. -/
theorem not_onCycle_of_placed (hg : g.Inside) {i : Nat} (hi : i ∈ g.placed) : ¬ g.OnCycle i := by
  -- along a path into the front of the order, every node is in that front
  have hback : ∀ earlier i later, g.placed = earlier ++ i :: later →
      ∀ a, Relation.TransGen g.Edge a i → a ∈ earlier := by
    intro earlier i later h a ha
    induction ha using Relation.TransGen.head_induction_on with
    | single he => exact placed_sources_before hg h he
    | @head b c he _ ih =>
      obtain ⟨l, r, rfl⟩ := List.append_of_mem ih
      have h' : g.placed = l ++ c :: (r ++ i :: later) := by simpa using h
      exact List.mem_append_left _ (placed_sources_before hg h' he)
  intro hc
  obtain ⟨earlier, later, h⟩ := List.append_of_mem hi
  have hmem := hback earlier i later h i hc
  have hnd := placed_nodup hg
  rw [h, List.nodup_append] at hnd
  exact hnd.2.2 i hmem i List.mem_cons_self rfl

theorem isOrdered_iff_forall_mem (hg : g.Inside) :
    g.isOrdered = true ↔ ∀ i, i < g.size → i ∈ g.placed := by
  have hsub : g.placed.toFinset ⊆ Finset.range g.size := by
    intro i hi
    exact Finset.mem_range.mpr (placed_lt hg (List.mem_toFinset.mp hi))
  have hcard : g.placed.toFinset.card = g.placed.length :=
    List.toFinset_card_of_nodup (placed_nodup hg)
  rw [isOrdered, beq_iff_eq]
  constructor
  · intro hlen i hi
    have heq : g.placed.toFinset = Finset.range g.size :=
      Finset.eq_of_subset_of_card_le hsub (by simp [hcard, hlen])
    have : i ∈ g.placed.toFinset := by
      rw [heq]
      exact Finset.mem_range.mpr hi
    exact List.mem_toFinset.mp this
  · intro hall
    have heq : g.placed.toFinset = Finset.range g.size := by
      refine Finset.Subset.antisymm hsub ?_
      intro i hi
      exact List.mem_toFinset.mpr (hall i (Finset.mem_range.mp hi))
    rw [← hcard, heq, Finset.card_range]

/-- Every node is placed exactly when the graph has no cycle. -/
theorem isOrdered_iff_acyclic (hg : g.Inside) : g.isOrdered = true ↔ g.Acyclic := by
  rw [isOrdered_iff_forall_mem hg]
  constructor
  · intro hall i hc
    obtain ⟨j, he, -⟩ := Relation.TransGen.head'_iff.mp hc
    exact not_onCycle_of_placed hg (hall i (hg i j he).1) hc
  · intro hac i hi
    by_contra hnot
    -- the nodes that are left over would each read from another one of them
    refine hac.eq_empty_of_sources (fun i => i < g.size ∧ i ∉ g.placed) (fun _ h => h.1) ?_ i
      ⟨hi, hnot⟩
    rintro j ⟨hj, hjn⟩
    rw [mem_placed_iff hg hj] at hjn
    push Not at hjn
    obtain ⟨a, ha, hna⟩ := hjn
    exact ⟨a, ⟨(hg a j ha).1, hna⟩, ha⟩

/-- When every node could be placed, the order lists each place of the graph once. -/
theorem placed_perm_range (hg : g.Inside) (h : g.isOrdered = true) :
    g.placed.Perm (List.range g.size) := by
  rw [List.perm_ext_iff_of_nodup (placed_nodup hg) List.nodup_range]
  intro i
  rw [List.mem_range]
  exact ⟨placed_lt hg, (isOrdered_iff_forall_mem hg).mp h i⟩

end FlowScript.Graph
