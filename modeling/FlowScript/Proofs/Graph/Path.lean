import FlowScript.Graph.Basic
import Mathlib.Logic.Relation
import Mathlib.Order.WellFounded
import Mathlib.Data.Fintype.EquivFin

/-!
# Paths of the dependency graph

The edges of a graph as a relation between places, the paths made of them, and what it means for a
graph to have no cycle. Self-loops and parallel connections are edges like any other.

## Main definitions

- `Graph.Edge` — an edge leads from one place to another
- `Graph.Reach` — a path of zero or more edges
- `Graph.OnCycle` — a path of one or more edges leads back
- `Graph.Acyclic` — no place is on a cycle
- `Graph.Inside` — every edge joins two places of the graph
-/

namespace FlowScript.Graph

open Relation

variable {g : Graph}

/-- An edge leads from place `i` to place `j`. -/
def Edge (g : Graph) (i j : Nat) : Prop :=
  (i, j) ∈ g.edges

/-- A path of zero or more edges leads from `i` to `j`. -/
def Reach (g : Graph) (i j : Nat) : Prop :=
  ReflTransGen g.Edge i j

/-- A path of one or more edges leads from `i` back to `i`. -/
def OnCycle (g : Graph) (i : Nat) : Prop :=
  TransGen g.Edge i i

/-- No path of one or more edges leads back to where it started. -/
def Acyclic (g : Graph) : Prop :=
  ∀ i, ¬ g.OnCycle i

/-- Every edge joins two places of the graph. -/
def Inside (g : Graph) : Prop :=
  ∀ i j, g.Edge i j → i < g.size ∧ j < g.size

theorem Reach.refl (i : Nat) : g.Reach i i :=
  ReflTransGen.refl

theorem Edge.reach {i j : Nat} (h : g.Edge i j) : g.Reach i j :=
  ReflTransGen.single h

theorem Reach.trans {i j k : Nat} (h : g.Reach i j) (h' : g.Reach j k) : g.Reach i k :=
  ReflTransGen.trans h h'

/-- A set of places that no edge leaves holds every place that is reached from it. -/
theorem Reach.closed {P : Nat → Prop} (hP : ∀ i j, P i → g.Edge i j → P j) {i j : Nat}
    (h : g.Reach i j) (hi : P i) : P j := by
  induction h with
  | refl => exact hi
  | tail _ he ih => exact hP _ _ ih he

/-- Two different places that reach each other are on a cycle. -/
theorem Reach.onCycle {i j : Nat} (hne : i ≠ j) (h : g.Reach i j) (h' : g.Reach j i) :
    g.OnCycle i := by
  rcases ReflTransGen.cases_head h with rfl | ⟨k, he, hk⟩
  · exact absurd rfl hne
  · exact TransGen.head' he (hk.trans h')

/-- A place on a cycle is wired to itself, or some other place reaches it and is reached from it. -/
theorem OnCycle.cases {i : Nat} (h : g.OnCycle i) :
    g.Edge i i ∨ ∃ j, j ≠ i ∧ g.Reach i j ∧ g.Reach j i := by
  obtain ⟨j, he, hj⟩ := TransGen.head'_iff.mp h
  by_cases hji : j = i
  · subst hji
    exact Or.inl he
  · exact Or.inr ⟨j, hji, ReflTransGen.single he, hj⟩

/-- A set of finitely many places in which every member has an edge from a member holds a place on a
cycle, unless it is empty. -/
theorem exists_onCycle_of_sources (P : Nat → Prop) (hlt : ∀ i, P i → i < g.size)
    (hsrc : ∀ i, P i → ∃ a, P a ∧ g.Edge a i) {i : Nat} (hi : P i) : ∃ j, P j ∧ g.OnCycle j := by
  by_contra hnone
  -- paths between members would order them, and a set of finitely many places has a first one
  let R : Fin g.size → Fin g.size → Prop := fun a b => P a.val ∧ TransGen g.Edge a.val b.val
  have hwf : WellFounded R :=
    have : IsTrans (Fin g.size) R := ⟨fun _ _ _ hab hbc => ⟨hab.1, hab.2.trans hbc.2⟩⟩
    have : Std.Irrefl R := ⟨fun a ha => hnone ⟨a.val, ha⟩⟩
    Finite.wellFounded_of_trans_of_irrefl R
  obtain ⟨m, hm, hmin⟩ := hwf.has_min { a | P a.val } ⟨⟨i, hlt i hi⟩, hi⟩
  obtain ⟨a, ha, he⟩ := hsrc m.val hm
  exact hmin ⟨a, hlt a ha⟩ ha ⟨ha, TransGen.single he⟩

/-- In a graph without cycles, a set of places in which every member has an edge from a member is
empty. -/
theorem Acyclic.eq_empty_of_sources (hg : g.Acyclic) (P : Nat → Prop)
    (hlt : ∀ i, P i → i < g.size) (hsrc : ∀ i, P i → ∃ a, P a ∧ g.Edge a i) (i : Nat) : ¬ P i := by
  intro hi
  obtain ⟨j, -, hj⟩ := exists_onCycle_of_sources P hlt hsrc hi
  exact hg j hj

/-- The place that an id stands for is the place of a node with that id. -/
theorem placeIn_eq_some_iff {nodes : List Node} {id : String} {i : Nat} :
    placeIn nodes id = some i ↔
      ∃ n, nodes[i]? = some n ∧ n.id = id ∧ ∀ k, k < i → ∀ m, nodes[k]? = some m → m.id ≠ id := by
  rw [placeIn, List.findIdx?_eq_some_iff_getElem]
  constructor
  · rintro ⟨hi, hid, hmin⟩
    refine ⟨nodes[i], List.getElem?_eq_getElem hi, by simpa using hid, ?_⟩
    intro k hk m hm
    obtain ⟨_, rfl⟩ := List.getElem?_eq_some_iff.mp hm
    simpa using hmin k hk
  · rintro ⟨n, hn, hid, hmin⟩
    obtain ⟨hi, rfl⟩ := List.getElem?_eq_some_iff.mp hn
    refine ⟨hi, by simpa using hid, ?_⟩
    intro k hk
    simpa using hmin k hk _ (List.getElem?_eq_getElem (Nat.lt_trans hk hi))

/-- The edge of a connection joins the places of its two ids. -/
theorem edgeIn?_eq_some_iff {nodes : List Node} {c : Connection} {i j : Nat} :
    edgeIn? nodes c = some (i, j) ↔
      placeIn nodes c.sourceNode = some i ∧ placeIn nodes c.targetNode = some j := by
  unfold edgeIn?
  cases hs : placeIn nodes c.sourceNode with
  | none => simp
  | some a =>
    cases ht : placeIn nodes c.targetNode with
    | none => simp
    | some b => simp

theorem ofFlow_edge_iff {f : Flow} {i j : Nat} :
    (ofFlow f).Edge i j ↔ ∃ c ∈ f.liveConnections, edgeIn? f.liveNodes c = some (i, j) := by
  simp [Edge, ofFlow, List.mem_filterMap]

theorem placeIn_lt {nodes : List Node} {id : String} {i : Nat} (h : placeIn nodes id = some i) :
    i < nodes.length := by
  obtain ⟨n, hn, -⟩ := placeIn_eq_some_iff.mp h
  exact (List.getElem?_eq_some_iff.mp hn).1

/-- The edges of the graph of a flow join nodes of the flow. -/
theorem ofFlow_inside (f : Flow) : (ofFlow f).Inside := by
  intro i j h
  obtain ⟨c, -, hc⟩ := ofFlow_edge_iff.mp h
  obtain ⟨hi, hj⟩ := edgeIn?_eq_some_iff.mp hc
  exact ⟨placeIn_lt hi, placeIn_lt hj⟩

section DifferentIds

variable {i : Nat} {n : Node} (hids : (g.nodes.map (·.id)).Nodup)

include hids

/-- Ids that differ tell the places apart. -/
theorem eq_of_id {j : Nat} {m : Node} (hn : g.nodes[i]? = some n) (hm : g.nodes[j]? = some m)
    (h : m.id = n.id) : j = i := by
  have hni : (g.nodes.map (·.id))[i]? = some n.id := by simp [hn]
  have hmj : (g.nodes.map (·.id))[j]? = some n.id := by simp [hm, h]
  exact (List.getElem?_inj (List.getElem?_eq_some_iff.mp hmj).1 hids).mp (hmj.trans hni.symm)

/-- Where ids differ, the id of a node leads to its place. -/
theorem place?_id (hn : g.nodes[i]? = some n) : g.place? n.id = some i := by
  refine placeIn_eq_some_iff.mpr ⟨n, hn, rfl, ?_⟩
  intro k hk m hm hid
  exact absurd (eq_of_id hids hn hm hid) (Nat.ne_of_lt hk)

end DifferentIds

end FlowScript.Graph
