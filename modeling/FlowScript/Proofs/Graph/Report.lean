import FlowScript.Proofs.Graph.Course
import FlowScript.Proofs.Graph.Cycles
import Mathlib.Data.List.Pairwise

/-!
# The report of the cycles

The components are exactly the classes of two or more places that reach each other over edges between
different places, and a component stands before those that lead to it. The cycles are the components
and the single places outside of them with an edge to themselves, no two of them with a place in
common, in the order of their first places. In the graph of a flow only the first node with an id has
edges, so the ids of the reported places tell them apart.

## Main definitions

- `Graph.Link` — an edge between different places
- `Graph.Joined` — two places reach each other over such edges
- `Graph.IsFirst` — the node at a place is the first one with its id
- `Graph.Attached` — edges join first nodes only

## Main results

- `mem_components_iff_class`, `components_ordered` — which components there are, and their order
- `cycles_disjoint`, `cycles_sorted` — the cycles share no place and are sorted
- `cycle_report` — the report of every flow
-/

namespace FlowScript.Graph

open Relation

variable {g : Graph}

/-- An edge leads from `i` to another place `j`. -/
def Link (g : Graph) (i j : Nat) : Prop :=
  i ≠ j ∧ g.Edge i j

/-- Two places reach each other over edges between different places. -/
def Joined (g : Graph) (i j : Nat) : Prop :=
  ReflTransGen g.Link i j ∧ ReflTransGen g.Link j i

/-- An edge from a place to itself leads nowhere new. -/
theorem links_iff_reach {i j : Nat} : ReflTransGen g.Link i j ↔ g.Reach i j := by
  constructor
  · have hle : g.Link ≤ g.Edge := fun _ _ h => h.2
    exact ReflTransGen.mono hle i j
  · intro h
    induction h with
    | refl => exact .refl
    | @tail b c _ he ih =>
      by_cases hbc : b = c
      · exact hbc ▸ ih
      · exact ih.tail ⟨hbc, he⟩

theorem joined_iff_mutual {i j : Nat} : g.Joined i j ↔ g.Mutual i j :=
  and_congr links_iff_reach links_iff_reach

/-! ## Components -/

/-- No component leads to one that stands behind it. -/
theorem components_ordered (hg : g.Inside) :
    g.components.Pairwise (fun first later => ∀ i ∈ first, ∀ j ∈ later, ¬ g.Reach i j) := by
  rw [components, List.pairwise_reverse]
  exact (Walk.Sound.all hg).1.group_order

theorem components_disjoint (hg : g.Inside) : g.components.Pairwise List.Disjoint :=
  (components_ordered hg).imp (fun h i hi hj => h i hi i hj (Reach.refl i))

theorem ne_nil_of_mem_components (hg : g.Inside) {group : List Nat} (h : group ∈ g.components) :
    group ≠ [] := by
  obtain ⟨-, -, hlen⟩ := components_class hg h
  exact List.ne_nil_of_length_pos (by omega)

theorem nodup_of_disjoint {groups : List (List Nat)} (hne : ∀ group ∈ groups, group ≠ [])
    (h : groups.Pairwise List.Disjoint) : groups.Nodup := by
  refine h.imp_of_mem ?_
  rintro group _ hgroup - hdisjoint rfl
  obtain ⟨i, hi⟩ := List.exists_mem_of_ne_nil group (hne group hgroup)
  exact hdisjoint hi hi

/-- The components are the classes of two or more places, each in ascending order. -/
theorem mem_components_iff_class (hg : g.Inside) {group : List Nat} :
    group ∈ g.components ↔
      1 < group.length ∧ group.Pairwise (· < ·) ∧ ∀ i ∈ group, ∀ j, j ∈ group ↔ g.Joined i j := by
  simp only [joined_iff_mutual]
  constructor
  · intro h
    obtain ⟨hclass, hsorted, hlen⟩ := components_class hg h
    exact ⟨hlen, hsorted, hclass⟩
  · rintro ⟨hlen, hsorted, hclass⟩
    -- two members reach each other, so there is a component with the first of them
    obtain ⟨i, j, hi, hj, hij⟩ : ∃ i j, i ∈ group ∧ j ∈ group ∧ j ≠ i := by
      obtain ⟨i, hi⟩ := List.exists_mem_of_length_pos (by omega : 0 < group.length)
      by_contra hall
      push Not at hall
      have hone : ∀ j ∈ group, j = i := fun j hj => hall i j hi hj
      have hnodup : group.Nodup := hsorted.imp (fun h => Nat.ne_of_lt h)
      have := (List.nodup_replicate.mp (List.eq_replicate_of_mem hone ▸ hnodup))
      omega
    have hmutual := (hclass i hi j).mp hj
    obtain ⟨k, he, -⟩ : ∃ k, g.Edge i k ∧ g.Reach k j :=
      (ReflTransGen.cases_head hmutual.1).resolve_left (Ne.symm hij)
    obtain ⟨other, hother, hmem⟩ :=
      (mem_components_iff hg (hg i k he).1).mpr ⟨j, hij, hmutual⟩
    obtain ⟨hclass', hsorted', -⟩ := components_class hg hother
    -- both hold the class of that place, in ascending order
    have hsame : group = other := by
      refine List.Perm.eq_of_pairwise (fun a b _ _ h h' => absurd h (Nat.lt_asymm h')) hsorted
        hsorted' ?_
      rw [List.perm_ext_iff_of_nodup (hsorted.imp (fun h => Nat.ne_of_lt h))
        (hsorted'.imp (fun h => Nat.ne_of_lt h))]
      intro k
      rw [hclass i hi k, hclass' i hmem k]
    exact hsame ▸ hother

/-! ## Cycles -/

theorem cycles_disjoint (hg : g.Inside) : g.cycles.Pairwise List.Disjoint := by
  rw [g.cycles_perm.pairwise_iff (fun h => h.symm), List.pairwise_append]
  refine ⟨components_disjoint hg, ?_, ?_⟩
  · rw [List.pairwise_map]
    refine ((List.nodup_range.filter _).imp ?_ : g.loneLoops.Pairwise _)
    intro i j hij
    simpa using Ne.symm hij
  · intro group hgroup single hsingle
    obtain ⟨i, hi, rfl⟩ := List.mem_map.mp hsingle
    have hout := (mem_loneLoops_iff.mp hi).2.2 group hgroup
    simpa [List.disjoint_singleton] using hout

theorem cycles_sorted (hg : g.Inside) :
    g.cycles.Pairwise (fun first later => first.headD 0 < later.headD 0) := by
  have hle : g.cycles.Pairwise (fun first later => first.headD 0 ≤ later.headD 0) := by
    rw [cycles_eq]
    simpa using @List.pairwise_mergeSort (List Nat) (fun a b => decide (a.headD 0 ≤ b.headD 0))
      (by intro a b c; simpa using le_trans) (by intro a b; simpa using le_total _ _)
      (g.components ++ g.loneLoops.map (fun i => [i]))
  -- two cycles with the same first place would share it
  refine (hle.and (cycles_disjoint hg)).imp_of_mem ?_
  rintro first later hfirst hlater ⟨h, hdisjoint⟩
  refine lt_of_le_of_ne h ?_
  have hhead : ∀ group ∈ g.cycles, group.headD 0 ∈ group := by
    intro group hgroup
    obtain ⟨hne, -⟩ := cycles_isCycle hg hgroup
    obtain ⟨i, rest, rfl⟩ := List.exists_cons_of_ne_nil hne
    exact List.mem_cons_self
  intro hsame
  exact hdisjoint (hhead first hfirst) (hsame ▸ hhead later hlater)

theorem ascending_of_mem_cycles (hg : g.Inside) {group : List Nat} (h : group ∈ g.cycles) :
    group.Pairwise (· < ·) := by
  rcases mem_cycles_iff.mp h with h | ⟨i, -, -, -, rfl⟩
  · exact (components_class hg h).2.1
  · exact List.pairwise_singleton _ _

/-! ## Ids -/

/-- The node at place `i` is the first one with its id. -/
def IsFirst (g : Graph) (i : Nat) : Prop :=
  ∃ n, g.nodes[i]? = some n ∧ g.place? n.id = some i

/-- Edges join nodes that are the first ones with their ids. -/
def Attached (g : Graph) : Prop :=
  ∀ i j, g.Edge i j → g.IsFirst i ∧ g.IsFirst j

theorem ofFlow_attached (f : Flow) : (ofFlow f).Attached := by
  have hfirst : ∀ {id : String} {i : Nat}, placeIn f.liveNodes id = some i →
      (ofFlow f).IsFirst i := by
    intro id i h
    obtain ⟨n, hn, rfl, -⟩ := placeIn_eq_some_iff.mp h
    exact ⟨n, hn, h⟩
  intro i j h
  obtain ⟨c, -, hc⟩ := ofFlow_edge_iff.mp h
  obtain ⟨hi, hj⟩ := edgeIn?_eq_some_iff.mp hc
  exact ⟨hfirst hi, hfirst hj⟩

/-- The ids of first nodes lead back to their places. -/
theorem place?_idsAt {places : List Nat} (h : ∀ i ∈ places, g.IsFirst i) :
    (g.idsAt places).map g.place? = places.map some := by
  induction places with
  | nil => rfl
  | cons i rest ih =>
    obtain ⟨n, hn, hplace⟩ := h i List.mem_cons_self
    have hrest := ih (fun j hj => h j (List.mem_cons_of_mem i hj))
    simp only [idsAt] at hrest ⊢
    rw [List.filterMap_cons, hn]
    simp only [Option.map_some, List.map_cons, hplace, hrest]

theorem idsAt_disjoint {places places' : List Nat} (h : ∀ i ∈ places, g.IsFirst i)
    (h' : ∀ i ∈ places', g.IsFirst i) (hdisjoint : places.Disjoint places') :
    (g.idsAt places).Disjoint (g.idsAt places') := by
  intro id hid hid'
  have hmem : g.place? id ∈ places.map some := place?_idsAt h ▸ List.mem_map_of_mem hid
  have hmem' : g.place? id ∈ places'.map some := place?_idsAt h' ▸ List.mem_map_of_mem hid'
  obtain ⟨i, hi, hsome⟩ := List.mem_map.mp hmem
  obtain ⟨j, hj, hsome'⟩ := List.mem_map.mp hmem'
  obtain rfl := Option.some.inj (hsome.trans hsome'.symm)
  exact hdisjoint hi hj

/-- The members of cycles have edges, so they are first nodes. -/
theorem isFirst_of_mem_cycles (hg : g.Inside) (ha : g.Attached) {group : List Nat}
    (h : group ∈ g.cycles) {i : Nat} (hi : i ∈ group) : g.IsFirst i := by
  obtain ⟨j, he, -⟩ := TransGen.head'_iff.mp ((cycles_isCycle hg h).2 i hi i hi)
  exact (ha i j he).1

theorem cycle_ids_disjoint (hg : g.Inside) (ha : g.Attached) :
    (g.cycles.map g.idsAt).Pairwise List.Disjoint := by
  rw [List.pairwise_map]
  refine (cycles_disjoint hg).imp_of_mem ?_
  intro first later hfirst hlater hdisjoint
  exact idsAt_disjoint (fun i => isFirst_of_mem_cycles hg ha hfirst)
    (fun i => isFirst_of_mem_cycles hg ha hlater) hdisjoint

/-- The report of the cycles of a flow is exact. The recursion of the walk ends. Its components are
the classes of two or more places that reach each other over edges between different places: each is
listed once, in ascending order, and before those that lead to it. The cycles are the components and,
one by one, the places outside of them that are wired to themselves; they are sorted by their first
places, the ids of two of them have nothing in common, and the ids of each are those of the first
nodes that have them, in flow order. -/
theorem cycle_report (f : Flow) :
    Walk.Turns (ofFlow f) (List.range (ofFlow f).size) {} (Walk.all (ofFlow f)) ∧
    (ofFlow f).components = (Walk.all (ofFlow f)).groups.reverse ∧
    (ofFlow f).components.Nodup ∧
    (∀ group, group ∈ (ofFlow f).components ↔
      1 < group.length ∧ group.Pairwise (· < ·) ∧
        ∀ i ∈ group, ∀ j, j ∈ group ↔ (ofFlow f).Joined i j) ∧
    (ofFlow f).components.Pairwise
      (fun first later => ∀ i ∈ first, ∀ j ∈ later, ¬ ReflTransGen (ofFlow f).Link i j) ∧
    (∀ group, group ∈ (ofFlow f).cycles ↔
      group ∈ (ofFlow f).components ∨
        ∃ i, (ofFlow f).Edge i i ∧ (∀ other ∈ (ofFlow f).components, i ∉ other) ∧ group = [i]) ∧
    (ofFlow f).cycles.Pairwise (fun first later => first.headD 0 < later.headD 0) ∧
    ((ofFlow f).cycles.map (ofFlow f).idsAt).Pairwise List.Disjoint ∧
    ∀ group ∈ (ofFlow f).cycles, group.Pairwise (· < ·) ∧
      ((ofFlow f).idsAt group).map (ofFlow f).place? = group.map some := by
  have hg := ofFlow_inside f
  have ha := ofFlow_attached f
  refine ⟨Walk.turns_all _, rfl,
    nodup_of_disjoint (fun _ => ne_nil_of_mem_components hg) (components_disjoint hg),
    fun group => mem_components_iff_class hg, ?_, ?_, cycles_sorted hg, cycle_ids_disjoint hg ha, ?_⟩
  · simpa only [links_iff_reach] using components_ordered hg
  · intro group
    rw [mem_cycles_iff]
    refine or_congr_right (exists_congr fun i => ?_)
    exact ⟨And.right, fun h => ⟨(hg i i h.1).1, h⟩⟩
  · intro group hgroup
    exact ⟨ascending_of_mem_cycles hg hgroup,
      place?_idsAt (fun i => isFirst_of_mem_cycles hg ha hgroup)⟩

end FlowScript.Graph
