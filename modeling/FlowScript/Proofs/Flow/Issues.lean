import FlowScript.Flow.Issue
import Mathlib.Data.List.Nodup

/-!
# Flows without issues

When the structure of a flow is found to be in order: ids are given once, kinds and payloads fit, and
every connection leads from an output port to an input port that no other connection feeds.

## Main results

- `Issue.ofNodes_eq_nil_iff` — when nothing is wrong with the nodes
- `Issue.ofConnections_eq_nil_iff` — when nothing is wrong with the connections
- `issues_eq_nil_iff` — when a flow has no issues
-/

namespace FlowScript

/-- The ids of all ports of some nodes. -/
def portIdsOf (nodes : List Node) : List String :=
  nodes.flatMap (fun n => n.ports.map (·.id))

theorem portIdsOf_cons (n : Node) (rest : List Node) :
    portIdsOf (n :: rest) = n.ports.map (·.id) ++ portIdsOf rest :=
  rfl

/-- The kind of a node is supported and its payload fits. -/
def Node.Fits (n : Node) : Prop :=
  n.kind.isSupported = true ∧ n.carriesFitting = true

/-- A connection leads from an output port to an input port. -/
structure Connection.Joins (f : Flow) (c : Connection) : Prop where
  source : ∃ n, f.node? c.sourceNode = some n ∧ n.hasOutput c.sourcePort = true
  target : ∃ n, f.node? c.targetNode = some n ∧ n.hasInput c.targetPort = true

namespace Issue

theorem ofRepeatedId_eq_nil_iff {n : Node} {seen : List String} :
    ofRepeatedId n seen = [] ↔ n.id ∉ seen := by
  simp [ofRepeatedId]

theorem ofKind_eq_nil_iff {n : Node} : ofKind n = [] ↔ n.Fits := by
  unfold ofKind Node.Fits
  by_cases hk : n.kind.isSupported = true <;> by_cases hc : n.carriesFitting = true <;>
    simp [hk, hc]

theorem ofPorts_eq_nil_iff {nodeId : String} {seen : List String} {ports : List Port} :
    ofPorts nodeId seen ports = [] ↔
      (ports.map (·.id)).Nodup ∧ ∀ p ∈ ports, p.id ∉ seen := by
  induction ports generalizing seen with
  | nil => simp [ofPorts]
  | cons p rest ih =>
    by_cases hp : p.id ∈ seen
    · simp [ofPorts, hp]
    · simp only [ofPorts, List.contains_eq_mem, hp, decide_false, Bool.false_eq_true, if_false, ih,
        List.mem_cons, not_or, List.map_cons, List.nodup_cons, List.mem_map, forall_eq_or_imp,
        not_false_eq_true, true_and]
      constructor
      · rintro ⟨hnodup, hrest⟩
        exact ⟨⟨fun ⟨q, hq, hid⟩ => (hrest q hq).1 hid, hnodup⟩, fun q hq => (hrest q hq).2⟩
      · rintro ⟨⟨hnot, hnodup⟩, hrest⟩
        exact ⟨hnodup, fun q hq => ⟨fun hid => hnot ⟨q, hq, hid⟩, hrest q hq⟩⟩

/-- Nothing is wrong with nodes whose ids and port ids are given once and whose kinds fit. -/
theorem ofNodes_eq_nil_iff {nodeIds portIds : List String} {nodes : List Node} :
    ofNodes nodeIds portIds nodes = [] ↔
      (nodes.map (·.id)).Nodup ∧ (∀ n ∈ nodes, n.id ∉ nodeIds) ∧ (∀ n ∈ nodes, n.Fits) ∧
        (portIdsOf nodes).Nodup ∧ ∀ id ∈ portIdsOf nodes, id ∉ portIds := by
  induction nodes generalizing nodeIds portIds with
  | nil => simp [ofNodes, portIdsOf]
  | cons n rest ih =>
    -- what has been seen grows by the id and the ports of the node
    rw [ofNodes, List.append_eq_nil_iff, List.append_eq_nil_iff, List.append_eq_nil_iff,
      ofRepeatedId_eq_nil_iff, ofKind_eq_nil_iff, ofPorts_eq_nil_iff, ih, portIdsOf_cons]
    rw [List.map_cons, List.nodup_cons, List.nodup_append]
    constructor
    · rintro ⟨⟨⟨hid, hfits⟩, hports, hnew⟩, hids, hidsNew, hfitsRest, hportsRest, hportsNew⟩
      refine ⟨⟨?_, hids⟩, ?_, ?_, ⟨hports, hportsRest, ?_⟩, ?_⟩
      · intro hmem
        obtain ⟨m, hm, hsame⟩ := List.mem_map.mp hmem
        exact hidsNew m hm (hsame ▸ List.mem_cons_self)
      · intro m hm
        rcases List.mem_cons.mp hm with rfl | hm
        · exact hid
        · exact fun h => hidsNew m hm (List.mem_cons_of_mem _ h)
      · intro m hm
        rcases List.mem_cons.mp hm with rfl | hm
        · exact hfits
        · exact hfitsRest m hm
      · intro id hmem id' hmem' hsame
        exact hportsNew id' hmem' (List.mem_append_left _ (hsame ▸ hmem))
      · intro id hmem
        rcases List.mem_append.mp hmem with hmem | hmem
        · obtain ⟨p, hp, rfl⟩ := List.mem_map.mp hmem
          exact hnew p hp
        · exact fun h => hportsNew id hmem (List.mem_append_right _ h)
    · rintro ⟨⟨hid, hids⟩, hidsNew, hfits, ⟨hports, hportsRest, hdisjoint⟩, hportsNew⟩
      refine ⟨⟨⟨hidsNew n List.mem_cons_self, hfits n List.mem_cons_self⟩, hports, ?_⟩, hids, ?_,
        fun m hm => hfits m (List.mem_cons_of_mem _ hm), hportsRest, ?_⟩
      · intro p hp
        exact hportsNew p.id (List.mem_append_left _ (List.mem_map_of_mem hp))
      · intro m hm hmem
        rcases List.mem_cons.mp hmem with hsame | hmem
        · exact hid (hsame ▸ List.mem_map_of_mem hm)
        · exact hidsNew m (List.mem_cons_of_mem _ hm) hmem
      · intro id hmem hmem'
        rcases List.mem_append.mp hmem' with hmem' | hmem'
        · exact hdisjoint id hmem' id hmem rfl
        · exact hportsNew id (List.mem_append_right _ hmem) hmem'

theorem ofSource_eq_nil_iff {source : Node} {c : Connection} :
    ofSource source c = [] ↔ source.hasOutput c.sourcePort = true := by
  by_cases h : source.hasOutput c.sourcePort = true <;> simp [ofSource, h]

/-- Nothing is wrong with the first connection and those behind it. -/
theorem ofConnections_cons_eq_nil_iff {f : Flow} {taken : List (String × String)} {c : Connection}
    {rest : List Connection} :
    ofConnections f taken (c :: rest) = [] ↔
      c.Joins f ∧ taken.lookup (inputKey c) = none ∧
        ofConnections f ((inputKey c, c.id) :: taken) rest = [] := by
  rw [ofConnections]
  cases hs : f.node? c.sourceNode with
  | none =>
    simp only [reduceCtorEq, false_iff]
    rintro ⟨⟨⟨n, hn, -⟩, -⟩, -⟩
    cases hs.symm.trans hn
  | some source =>
    cases ht : f.node? c.targetNode with
    | none =>
      simp only [reduceCtorEq, false_iff]
      rintro ⟨⟨-, ⟨n, hn, -⟩⟩, -⟩
      cases ht.symm.trans hn
    | some target =>
      have hjoins : c.Joins f ↔
          source.hasOutput c.sourcePort = true ∧ target.hasInput c.targetPort = true := by
        constructor
        · rintro ⟨⟨n, hn, ho⟩, m, hm, hi⟩
          obtain rfl := Option.some.inj (hs.symm.trans hn)
          obtain rfl := Option.some.inj (ht.symm.trans hm)
          exact ⟨ho, hi⟩
        · rintro ⟨ho, hi⟩
          exact ⟨⟨source, hs, ho⟩, target, ht, hi⟩
      rw [List.append_eq_nil_iff, ofSource_eq_nil_iff, hjoins, and_assoc]
      by_cases hi : target.hasInput c.targetPort = true
      · simp only [hi, Bool.not_true, Bool.false_eq_true, if_false, true_and]
        cases hl : taken.lookup (inputKey c) with
        | none => simp only [true_and]
        | some first => simp only [reduceCtorEq, false_and]
      · simp only [hi, Bool.not_false, if_true, reduceCtorEq, Bool.false_eq_true, false_and]

/-- Nothing is wrong with connections that join an output to an input and feed different inputs. -/
theorem ofConnections_eq_nil_iff {f : Flow} {taken : List (String × String)}
    {wires : List Connection} :
    ofConnections f taken wires = [] ↔
      (∀ c ∈ wires, c.Joins f) ∧ (wires.map inputKey).Nodup ∧
        ∀ c ∈ wires, taken.lookup (inputKey c) = none := by
  induction wires generalizing taken with
  | nil => simp [ofConnections]
  | cons c rest ih =>
    rw [ofConnections_cons_eq_nil_iff, ih, List.map_cons, List.nodup_cons]
    -- behind a connection its input counts as taken
    have hlookup : ∀ d : Connection,
        ((inputKey c, c.id) :: taken).lookup (inputKey d) = none ↔
          inputKey d ≠ inputKey c ∧ taken.lookup (inputKey d) = none := by
      intro d
      rw [List.lookup_cons]
      by_cases hd : inputKey d = inputKey c
      · simp [hd]
      · rw [beq_eq_false_iff_ne.mpr hd]
        exact ⟨fun h => ⟨hd, h⟩, And.right⟩
    constructor
    · rintro ⟨hc, hfree, hrest, hkeys, htaken⟩
      refine ⟨List.forall_mem_cons.mpr ⟨hc, hrest⟩, ⟨?_, hkeys⟩, List.forall_mem_cons.mpr ⟨hfree, ?_⟩⟩
      · intro hmem
        obtain ⟨d, hd, hsame⟩ := List.mem_map.mp hmem
        exact ((hlookup d).mp (htaken d hd)).1 hsame
      · intro d hd
        exact ((hlookup d).mp (htaken d hd)).2
    · rintro ⟨hjoins, ⟨hnot, hkeys⟩, htaken⟩
      obtain ⟨hc, hrest⟩ := List.forall_mem_cons.mp hjoins
      obtain ⟨hfree, htaken⟩ := List.forall_mem_cons.mp htaken
      refine ⟨hc, hfree, hrest, hkeys, ?_⟩
      intro d hd
      exact (hlookup d).mpr ⟨fun hsame => hnot (hsame ▸ List.mem_map_of_mem hd), htaken d hd⟩

end Issue

/-- A flow has no issues when the ids of its nodes and of its ports are given once, its nodes carry
what their kinds call for, and its connections join outputs to inputs, one to each. -/
theorem issues_eq_nil_iff {f : Flow} :
    f.issues = [] ↔
      (f.liveNodes.map (·.id)).Nodup ∧ (portIdsOf f.liveNodes).Nodup ∧
        (∀ n ∈ f.liveNodes, n.Fits) ∧ (∀ c ∈ f.liveConnections, c.Joins f) ∧
        (f.liveConnections.map Issue.inputKey).Nodup := by
  rw [Flow.issues, List.append_eq_nil_iff, Issue.ofNodes_eq_nil_iff, Issue.ofConnections_eq_nil_iff]
  simp only [List.not_mem_nil, not_false_eq_true, implies_true, List.lookup_nil, true_and, and_true]
  tauto

end FlowScript
