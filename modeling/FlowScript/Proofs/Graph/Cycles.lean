import FlowScript.Proofs.Graph.Placing
import FlowScript.Proofs.Graph.Walk

/-!
# Reported cycles

The cycles that are reported: components of the walk, and nodes outside of them that are wired to
themselves. Each of them is a real cycle, every place on a cycle is in one of them, and so there is
something to report exactly when the dependency order leaves nodes over.

## Main definitions

- `IsCycle` — a list of places on one cycle
- `loneLoops` — the places outside of the components that are wired to themselves

## Main results

- `cycles_isCycle` — from every member of a reported cycle a path leads to every member
- `mem_cycles_iff_onCycle` — the members are the places on cycles
- `cycles_ne_nil_iff` — something is reported exactly when the order is not complete
-/

namespace FlowScript.Graph

open Relation

variable {g : Graph}

/-- A list of places that is a cycle: from each of them a path of one or more edges leads to each of
them, itself included. -/
def IsCycle (g : Graph) (group : List Nat) : Prop :=
  group ≠ [] ∧ ∀ i ∈ group, ∀ j ∈ group, TransGen g.Edge i j

theorem isSelfLooped_iff {i : Nat} : g.isSelfLooped i = true ↔ g.Edge i i := by
  simp [isSelfLooped, Edge]

/-- The places outside of the components that are wired to themselves. -/
def loneLoops (g : Graph) : List Nat :=
  (List.range g.size).filter
    (fun i => g.isSelfLooped i && !g.components.any (fun group => group.contains i))

theorem mem_loneLoops_iff {i : Nat} :
    i ∈ g.loneLoops ↔ i < g.size ∧ g.Edge i i ∧ ∀ other ∈ g.components, i ∉ other := by
  simp [loneLoops, isSelfLooped_iff]

theorem cycles_eq (g : Graph) :
    g.cycles = (g.components ++ g.loneLoops.map (fun i => [i])).mergeSort
      (fun a b => a.headD 0 ≤ b.headD 0) :=
  rfl

theorem cycles_perm (g : Graph) :
    g.cycles.Perm (g.components ++ g.loneLoops.map (fun i => [i])) :=
  List.mergeSort_perm _ _

/-- What is reported: the components and the single nodes outside of them with an edge to
themselves. -/
theorem mem_cycles_iff {group : List Nat} :
    group ∈ g.cycles ↔ group ∈ g.components ∨
      ∃ i, i < g.size ∧ g.Edge i i ∧ (∀ other ∈ g.components, i ∉ other) ∧ group = [i] := by
  rw [g.cycles_perm.mem_iff, List.mem_append, List.mem_map]
  refine or_congr_right (exists_congr fun i => ?_)
  rw [mem_loneLoops_iff, and_assoc, and_assoc, eq_comm]

/-- Every reported cycle is one. -/
theorem cycles_isCycle (hg : g.Inside) {group : List Nat} (h : group ∈ g.cycles) :
    g.IsCycle group := by
  rcases mem_cycles_iff.mp h with h | ⟨i, -, he, -, rfl⟩
  · obtain ⟨hclass, hsorted, hlen⟩ := components_class hg h
    have hcycle : ∀ i ∈ group, g.OnCycle i := by
      intro i hi
      have hin : i < g.size := (Walk.Sound.all hg).1.inside i
        ((Walk.Sound.all hg).1.group_closed group (by simpa [components] using h) i hi).1
      obtain ⟨j, hji, hij, hji'⟩ := (mem_components_iff hg hin).mp ⟨group, h, hi⟩
      exact hij.onCycle (Ne.symm hji) hji'
    refine ⟨List.ne_nil_of_length_pos (by omega), ?_⟩
    intro i hi j hj
    exact TransGen.trans_left (hcycle i hi) ((hclass i hi j).mp hj).1
  · refine ⟨by simp, ?_⟩
    intro a ha b hb
    rw [List.mem_singleton.mp ha, List.mem_singleton.mp hb]
    exact TransGen.single he

/-- The members of reported cycles are the places on cycles. -/
theorem mem_cycles_iff_onCycle (hg : g.Inside) {i : Nat} :
    (∃ group ∈ g.cycles, i ∈ group) ↔ g.OnCycle i := by
  constructor
  · rintro ⟨group, hgr, hi⟩
    exact (cycles_isCycle hg hgr).2 i hi i hi
  · intro hc
    obtain ⟨k, hk, -⟩ := TransGen.head'_iff.mp hc
    have hi : i < g.size := (hg i k hk).1
    by_cases hcomp : ∃ group ∈ g.components, i ∈ group
    · obtain ⟨group, hgr, hmem⟩ := hcomp
      exact ⟨group, mem_cycles_iff.mpr (Or.inl hgr), hmem⟩
    · -- outside of the components only an edge to itself makes a cycle
      rcases hc.cases with he | ⟨j, hji, hij, hji'⟩
      · have hout : ∀ other ∈ g.components, i ∉ other :=
          fun other ho hm => hcomp ⟨other, ho, hm⟩
        exact ⟨[i], mem_cycles_iff.mpr (Or.inr ⟨i, hi, he, hout, rfl⟩), List.mem_singleton.mpr rfl⟩
      · exact absurd ((mem_components_iff hg hi).mpr ⟨j, hji, hij, hji'⟩) hcomp

/-- Some cycle is reported exactly when the dependency order leaves nodes over. -/
theorem cycles_ne_nil_iff (hg : g.Inside) : g.cycles ≠ [] ↔ g.isOrdered = false := by
  rw [← Bool.not_eq_true, isOrdered_iff_acyclic hg, Acyclic, not_forall]
  constructor
  · intro h
    obtain ⟨group, hgr⟩ := List.exists_mem_of_ne_nil _ h
    obtain ⟨hne, hpath⟩ := cycles_isCycle hg hgr
    obtain ⟨i, hi⟩ := List.exists_mem_of_ne_nil _ hne
    exact ⟨i, not_not.mpr (hpath i hi i hi)⟩
  · rintro ⟨i, hi⟩
    obtain ⟨group, hgr, -⟩ := (mem_cycles_iff_onCycle hg).mpr (not_not.mp hi)
    exact List.ne_nil_of_mem hgr

end FlowScript.Graph
