import FlowScript.Proofs.Graph.Walk
import FlowScript.Proofs.Script.CallText
import Mathlib.Algebra.Order.BigOperators.Group.List
import Mathlib.Algebra.Order.Group.Nat

/-!
# Connections that lead nowhere

A connection that names a missing node is reported and left out of the order of the nodes. An input
port, though, takes the first connection into it, also when its source is missing: a connection that
leads nowhere hides the wires behind it. So a flow compiles as if such connections were not there
exactly when no port that a block reads is shadowed by one.

## Main definitions

- `Flow.withoutDangling` — the flow without the connections that name a missing node
- `Script.Shadowed` — a connection that leads nowhere stands before the wire that feeds a port

## Main results

- `Plan.ofFlow_withoutDangling` — order, imports, definitions and variables are the same
- `resolve?_eq_iff` — a port is fed alike exactly when it is not shadowed
- `compileAt_withoutDangling` — when scripts and findings are the same
-/

namespace FlowScript

namespace Flow

/-- Some end of the connection names a node that is not there. -/
def isDangling (f : Flow) (c : Connection) : Bool :=
  !f.hasNode c.sourceNode || !f.hasNode c.targetNode

/-- The flow without the connections that name a missing node. Null entries keep their place. -/
def withoutDangling (f : Flow) : Flow :=
  { f with connections := f.connections.filter (fun c => !c.any f.isDangling) }

theorem liveNodes_withoutDangling (f : Flow) : f.withoutDangling.liveNodes = f.liveNodes :=
  rfl

theorem liveConnections_withoutDangling (f : Flow) :
    f.withoutDangling.liveConnections = f.liveConnections.filter (fun c => !f.isDangling c) := by
  show (f.connections.filter (fun c => !c.any f.isDangling)).filterMap (fun c => c) =
    (f.connections.filterMap (fun c => c)).filter (fun c => !f.isDangling c)
  induction f.connections with
  | nil => rfl
  | cons c rest ih =>
    cases c with
    | none => simpa using ih
    | some c => by_cases hc : f.isDangling c <;> simp [hc, ih]

theorem isSome_placeIn (f : Flow) (id : String) :
    (Graph.placeIn f.liveNodes id).isSome = f.hasNode id := by
  rw [Bool.eq_iff_iff, Graph.placeIn, List.findIdx?_isSome, hasNode, node?, List.find?_isSome,
    List.any_eq_true]

theorem isNone_edgeIn? (f : Flow) (c : Connection) :
    (Graph.edgeIn? f.liveNodes c).isNone = f.isDangling c := by
  unfold Graph.edgeIn? isDangling
  rw [← isSome_placeIn, ← isSome_placeIn]
  cases Graph.placeIn f.liveNodes c.sourceNode with
  | none => rfl
  | some i => cases Graph.placeIn f.liveNodes c.targetNode <;> rfl

end Flow

/-! ## The order of the nodes -/

namespace Graph

/-- The same nodes and edges, with nothing left out. -/
def withoutDangling (g : Graph) : Graph :=
  { g with dangling := [] }

theorem ofFlow_withoutDangling (f : Flow) :
    ofFlow f.withoutDangling = (ofFlow f).withoutDangling := by
  have hedges : (f.liveConnections.filter (fun c => !f.isDangling c)).filterMap
      (edgeIn? f.liveNodes) = f.liveConnections.filterMap (edgeIn? f.liveNodes) := by
    rw [List.filterMap_filter]
    refine List.filterMap_congr ?_
    intro c _
    rw [← f.isNone_edgeIn? c]
    cases edgeIn? f.liveNodes c <;> rfl
  have hdangling : (f.liveConnections.filter (fun c => !f.isDangling c)).filter
      (fun c => (edgeIn? f.liveNodes c).isNone) = [] := by
    rw [List.filter_filter, List.filter_eq_nil_iff]
    intro c _
    simp [f.isNone_edgeIn? c]
  simp only [ofFlow, withoutDangling, Flow.liveNodes_withoutDangling,
    Flow.liveConnections_withoutDangling, hedges, hdangling]

theorem Placing.run_withoutDangling (g : Graph) (n : Nat) (p : Placing) :
    Placing.run g.withoutDangling n p = Placing.run g n p := by
  induction n generalizing p with
  | zero => rfl
  | succ n ih => exact ih (p.step g)

theorem placed_withoutDangling (g : Graph) : g.withoutDangling.placed = g.placed :=
  congrArg (fun p => p.placed.reverse) (Placing.run_withoutDangling g g.size (Placing.start g))

theorem Walk.visit_withoutDangling (g : Graph) (fuel : Nat) :
    Walk.visit g.withoutDangling fuel = Walk.visit g fuel := by
  induction fuel with
  | zero => rfl
  | succ fuel ih =>
    funext i w
    have hfollow : Walk.follow g.withoutDangling fuel i = Walk.follow g fuel i := by
      funext w j
      simp only [Walk.follow, ih]
    rw [Walk.visit_succ, Walk.visit_succ, hfollow]
    rfl

theorem cycles_withoutDangling (g : Graph) : g.withoutDangling.cycles = g.cycles := by
  have hall : Walk.all g.withoutDangling = Walk.all g := by
    unfold Walk.all
    rw [show g.withoutDangling.size = g.size from rfl, Walk.visit_withoutDangling]
  unfold cycles components
  rw [hall]
  rfl

end Graph

namespace Script

/-- The findings about connections that lead nowhere stand before all others of the order. -/
theorem Ordering.ofGraph_eq (g : Graph) :
    Ordering.ofGraph g =
      ⟨(Ordering.ofGraph g.withoutDangling).places,
        g.dangling.map danglingNote ++ (Ordering.ofGraph g.withoutDangling).diagnostics⟩ := by
  have hordered : g.withoutDangling.isOrdered = g.isOrdered := by
    unfold Graph.isOrdered
    rw [Graph.placed_withoutDangling]
    rfl
  unfold Ordering.ofGraph
  rw [hordered, Graph.placed_withoutDangling, Graph.cycles_withoutDangling]
  cases g.isOrdered with
  | true => simp [Graph.withoutDangling]
  | false => rfl

namespace Plan

variable (f : Flow)

/-- The connections that lead nowhere matter for nothing but their own findings. -/
theorem ofFlow_withoutDangling :
    (ofFlow f.withoutDangling).nodes = (ofFlow f).nodes ∧
    (ofFlow f.withoutDangling).collected = (ofFlow f).collected ∧
    (ofFlow f).ordering = (f.liveConnections.filter f.isDangling).map danglingNote
      ++ (ofFlow f.withoutDangling).ordering := by
  have hplaces : (Ordering.ofGraph (Graph.ofFlow f.withoutDangling)).places =
      (Ordering.ofGraph (Graph.ofFlow f)).places := by
    rw [Graph.ofFlow_withoutDangling, Ordering.ofGraph_eq (Graph.ofFlow f)]
  have hnodes : (ofFlow f.withoutDangling).nodes = (ofFlow f).nodes := by
    rw [ofFlow_nodes, ofFlow_nodes, hplaces, Flow.liveNodes_withoutDangling]
  have hdangling : (Graph.ofFlow f).dangling = f.liveConnections.filter f.isDangling := by
    simp only [Graph.ofFlow, Flow.isNone_edgeIn?]
  refine ⟨hnodes, by rw [ofFlow_collected, ofFlow_collected, hnodes], ?_⟩
  show (Ordering.ofGraph (Graph.ofFlow f)).diagnostics = _ ++
    (Ordering.ofGraph (Graph.ofFlow f.withoutDangling)).diagnostics
  rw [Graph.ofFlow_withoutDangling, Ordering.ofGraph_eq (Graph.ofFlow f), hdangling]

end Plan

/-! ## Shadowed ports -/

/-- The first connection into a port leads nowhere, and without such connections a variable would
feed it. -/
def Shadowed (f : Flow) (nodeId portId : String) : Prop :=
  (∃ wire, f.incoming? nodeId portId = some wire ∧ f.isDangling wire = true) ∧
    ∃ v, resolve? f.withoutDangling (Plan.ofFlow f).collected nodeId portId = some v

variable {f : Flow}

/-- The first connection into a port that is not dangling feeds it when the others are left out. -/
theorem incoming?_withoutDangling {nodeId portId : String} {wire : Connection}
    (h : f.incoming? nodeId portId = some wire) (hw : f.isDangling wire = false) :
    f.withoutDangling.incoming? nodeId portId = some wire := by
  obtain ⟨htarget, before, after, hlive, hbefore⟩ := List.find?_eq_some_iff_append.mp h
  unfold Flow.incoming?
  rw [Flow.liveConnections_withoutDangling, hlive, List.filter_append, List.filter_cons,
    if_pos (by simp [hw]), List.find?_append, List.find?_eq_none.mpr, Option.none_or, List.find?_cons,
    htarget]
  intro c hc
  have := hbefore c (List.mem_of_mem_filter hc)
  intro hmatch
  rw [hmatch] at this
  cases this

theorem incoming?_withoutDangling_none {nodeId portId : String}
    (h : f.incoming? nodeId portId = none) :
    f.withoutDangling.incoming? nodeId portId = none := by
  unfold Flow.incoming? at h ⊢
  rw [Flow.liveConnections_withoutDangling]
  rw [List.find?_eq_none] at h ⊢
  intro c hc
  exact h c (List.mem_of_mem_filter hc)

/-- A port whose first connection leads nowhere gets no value. -/
theorem resolve?_of_dangling {p : Placed} (hp : p ∈ (Plan.ofFlow f).nodes) {portId : String}
    {wire : Connection} (h : f.incoming? p.node.id portId = some wire)
    (hw : f.isDangling wire = true) :
    resolve? f (Plan.ofFlow f).collected p.node.id portId = none := by
  have hlive : ∀ q ∈ (Plan.ofFlow f).nodes, f.hasNode q.node.id = true := by
    intro q hq
    rw [Flow.hasNode, Flow.node?, List.find?_isSome]
    exact ⟨q.node, List.mem_of_getElem? (Plan.node_at hq), by simp⟩
  -- the target of the connection is there, so its source is missing
  have htarget : wire.targetNode = p.node.id := by
    have := List.find?_some h
    simp only [Bool.and_eq_true, beq_iff_eq] at this
    exact this.1
  have hsource : f.hasNode wire.sourceNode = false := by
    simpa [Flow.isDangling, htarget, hlive p hp] using hw
  simp only [resolve?, h]
  rw [Option.eq_none_iff_forall_ne_some]
  intro v hv
  obtain ⟨q, hq, hid, -⟩ := Plan.valueOf?_cases hv
  have := hlive q hq
  rw [hid, hsource] at this
  cases this

/-- A port of a node is fed alike with and without the connections that lead nowhere exactly when it
is not shadowed; a shadowed port gets no value. -/
theorem resolve?_eq_iff {p : Placed} (hp : p ∈ (Plan.ofFlow f).nodes) (portId : String) :
    (resolve? f (Plan.ofFlow f).collected p.node.id portId =
        resolve? f.withoutDangling (Plan.ofFlow f).collected p.node.id portId ↔
      ¬ Shadowed f p.node.id portId) ∧
    (Shadowed f p.node.id portId →
      resolve? f (Plan.ofFlow f).collected p.node.id portId = none) := by
  cases hin : f.incoming? p.node.id portId with
  | none =>
    have hnot : ¬ Shadowed f p.node.id portId := by
      rintro ⟨⟨wire, hwire, -⟩, -⟩
      cases hin.symm.trans hwire
    refine ⟨iff_of_true ?_ hnot, fun h => absurd h hnot⟩
    simp only [resolve?, hin, incoming?_withoutDangling_none hin]
  | some wire =>
    by_cases hw : f.isDangling wire = true
    · have hnone := resolve?_of_dangling hp hin hw
      refine ⟨?_, fun _ => hnone⟩
      rw [hnone]
      constructor
      · rintro h ⟨-, v, hv⟩
        cases h.trans hv
      · intro hnot
        cases hr : resolve? f.withoutDangling (Plan.ofFlow f).collected p.node.id portId with
        | none => rfl
        | some v => exact absurd ⟨⟨wire, hin, hw⟩, v, hr⟩ hnot
    · have hnot : ¬ Shadowed f p.node.id portId := by
        rintro ⟨⟨other, hother, hd⟩, -⟩
        obtain rfl := Option.some.inj (hin.symm.trans hother)
        exact hw hd
      refine ⟨iff_of_true ?_ hnot, fun h => absurd h hnot⟩
      simp only [resolve?, hin, incoming?_withoutDangling hin (by simpa using hw)]

/-! ## Arguments with and without a source -/

/-- The ports that a block reads: the parameters of a call, and the first input of an output node. -/
def Placed.reads (p : Placed) : List Port :=
  match p.node.kind with
  | .function =>
    if p.call?.isSome then
      p.node.inputPorts.filter (fun port =>
        Port.parameter port != "/" && Port.parameter port != "*")
    else []
  | .output => p.node.inputPorts.take 1
  | _ => []

/-- A parameter that is given a value or `None`, and never left out. -/
def isNamed (port : Port) : Bool :=
  Port.parameter port != "/" && (starsOf (Port.parameter port)).isEmpty

section Sources

variable {ports : List Port} {s s' : Port → Option String}

theorem unconnected_map (s : Port → Option String) (ports : List Port) :
    unconnected (ports.map (fun p => (p, s p))) =
      ports.filter (fun p => (s p).isNone && isNamed p) := by
  simp [unconnected, List.filter_map, Function.comp_def, isNamed, Bool.and_assoc]

theorem length_filter_le_of_loses (hs : ∀ port ∈ ports, s port = s' port ∨ s port = none) :
    (ports.filter (fun p => (s' p).isNone && isNamed p)).length ≤
      (ports.filter (fun p => (s p).isNone && isNamed p)).length := by
  simp only [← List.countP_eq_length_filter]
  refine List.countP_mono_left ?_
  intro port hport h
  rw [Bool.and_eq_true] at h ⊢
  rcases hs port hport with heq | hnone
  · exact heq ▸ h
  · exact ⟨by rw [hnone]; rfl, h.2⟩

/-- If ports only lose their sources, and no more named ones stay open than before, the named ones
are fed alike. -/
theorem named_eq_of_length_le (hs : ∀ port ∈ ports, s port = s' port ∨ s port = none)
    (hlen : (unconnected (ports.map (fun p => (p, s p)))).length ≤
      (unconnected (ports.map (fun p => (p, s' p)))).length) :
    ∀ port ∈ ports, isNamed port = true → s port = s' port := by
  rw [unconnected_map, unconnected_map] at hlen
  induction ports with
  | nil => simp
  | cons port rest ih =>
    have hrest := fun p hp => hs p (List.mem_cons_of_mem port hp)
    have hle := length_filter_le_of_loses hrest
    -- the first port cannot lose its source, since the others make up for nothing
    have hport : isNamed port = true → s port = s' port := by
      intro hnamed
      rcases hs port List.mem_cons_self with heq | hnone
      · exact heq
      · cases hs' : s' port with
        | none => exact hnone
        | some v =>
          simp only [List.filter_cons, hnone, hs', hnamed, Option.isNone_none, Option.isNone_some,
            Bool.and_true, Bool.false_eq_true, if_true, if_false, List.length_cons] at hlen
          omega
    have hsame : ((s port).isNone && isNamed port) = ((s' port).isNone && isNamed port) := by
      by_cases hnamed : isNamed port = true
      · rw [hport hnamed]
      · simp [hnamed]
    have hlen' : (rest.filter (fun p => (s p).isNone && isNamed p)).length ≤
        (rest.filter (fun p => (s' p).isNone && isNamed p)).length := by
      rw [List.filter_cons, List.filter_cons, hsame] at hlen
      split at hlen
      · simpa using hlen
      · exact hlen
    intro p hp
    rcases List.mem_cons.mp hp with rfl | hp
    · exact hport
    · exact ih hrest hlen' p hp

/-- If ports only lose their sources and the named ones are fed alike, arguments are left out and
nothing else changes; as many arguments mean that every port that is read is fed alike. -/
theorem arguments_of_named_eq (hs : ∀ port ∈ ports, s port = s' port ∨ s port = none)
    (hnamed : ∀ port ∈ ports, isNamed port = true → s port = s' port) (keyword : Bool) :
    let args := arguments keyword (ports.map (fun p => (p, s p)))
    let args' := arguments keyword (ports.map (fun p => (p, s' p)))
    args.length ≤ args'.length ∧
      args.all (fun a => a.comment.isNone) = args'.all (fun a => a.comment.isNone) ∧
      (args.length = args'.length → ∀ port ∈ ports, Port.parameter port ≠ "/" →
        Port.parameter port ≠ "*" → s port = s' port) := by
  induction ports generalizing keyword with
  | nil => exact ⟨le_rfl, rfl, fun _ port hport => by cases hport⟩
  | cons port rest ih =>
    have ih := fun k => ih (fun p hp => hs p (List.mem_cons_of_mem port hp))
      (fun p hp => hnamed p (List.mem_cons_of_mem port hp)) k
    -- what the rest says about the other ports
    have hall : ∀ {k}, (arguments k (rest.map (fun p => (p, s p)))).length =
        (arguments k (rest.map (fun p => (p, s' p)))).length →
        (Port.parameter port ≠ "/" → Port.parameter port ≠ "*" → s port = s' port) →
        ∀ p ∈ port :: rest, Port.parameter p ≠ "/" → Port.parameter p ≠ "*" → s p = s' p := by
      intro k hlen hport p hp
      rcases List.mem_cons.mp hp with rfl | hp
      · exact hport
      · exact (ih k).2.2 hlen p hp
    simp only [List.map_cons, arguments]
    by_cases hslash : Port.parameter port = "/"
    · simp only [hslash, beq_self_eq_true, if_true]
      exact ⟨(ih keyword).1, (ih keyword).2.1, fun h => hall h (fun hne => absurd hslash hne)⟩
    by_cases hstar : Port.parameter port = "*"
    · rw [if_neg (by simp [hstar]), if_pos (by simp [hstar]), if_neg (by simp [hstar]),
        if_pos (by simp [hstar])]
      exact ⟨(ih true).1, (ih true).2.1, fun h => hall h (fun _ hne => absurd hstar hne)⟩
    simp only [beq_iff_eq, hslash, hstar, if_false]
    by_cases hplain : (starsOf (Port.parameter port)).isEmpty = true
    · -- a named port is fed alike
      have hsame := hnamed port List.mem_cons_self (by simp [isNamed, hslash, hplain])
      simp only [hplain, if_true, hsame]
      cases s' port with
      | none =>
        obtain ⟨hle, hcomments, -⟩ := ih true
        exact ⟨by simpa using hle, by simp [hcomments], fun h => hall (by simpa using h) (fun _ _ => hsame)⟩
      | some v =>
        obtain ⟨hle, hcomments, -⟩ := ih keyword
        exact ⟨by simpa using hle, by simp [hcomments], fun h => hall (by simpa using h) (fun _ _ => hsame)⟩
    · simp only [hplain, Bool.false_eq_true, if_false]
      obtain ⟨hle, hcomments, -⟩ := ih keyword
      rcases hs port List.mem_cons_self with hsame | hnone
      · simp only [hsame]
        cases s' port with
        | none => exact ⟨hle, hcomments, fun h => hall h (fun _ _ => hsame)⟩
        | some v =>
          exact ⟨by simpa using hle, by simp [hcomments], fun h => hall (by simpa using h) (fun _ _ => hsame)⟩
      · -- a starred port that lost its source is left out
        simp only [hnone]
        cases hs' : s' port with
        | none => exact ⟨hle, hcomments, fun h => hall h (fun _ _ => hnone.trans hs'.symm)⟩
        | some v =>
          refine ⟨Nat.le_succ_of_le hle, by simp [hcomments], fun h => ?_⟩
          simp only [List.length_cons] at h
          omega

/-- Markers take no argument, whatever they are wired to. -/
theorem arguments_congr (hs : ∀ port ∈ ports, Port.parameter port ≠ "/" →
      Port.parameter port ≠ "*" → s port = s' port) (keyword : Bool) :
    arguments keyword (ports.map (fun p => (p, s p))) =
        arguments keyword (ports.map (fun p => (p, s' p))) ∧
      unconnected (ports.map (fun p => (p, s p))) =
        unconnected (ports.map (fun p => (p, s' p))) := by
  constructor
  · induction ports generalizing keyword with
    | nil => rfl
    | cons port rest ih =>
      have ih := fun k => ih (fun p hp => hs p (List.mem_cons_of_mem port hp)) k
      simp only [List.map_cons, arguments]
      by_cases hslash : Port.parameter port = "/"
      · simp only [hslash, beq_self_eq_true, if_true, ih]
      by_cases hstar : Port.parameter port = "*"
      · rw [if_neg (by simp [hstar]), if_pos (by simp [hstar]), if_neg (by simp [hstar]),
          if_pos (by simp [hstar]), ih]
      rw [hs port List.mem_cons_self hslash hstar]
      simp only [ih]
  · rw [unconnected_map, unconnected_map]
    refine List.filter_congr ?_
    intro port hport
    by_cases hnamed : isNamed port = true
    · have hslash : Port.parameter port ≠ "/" := by
        rintro h
        simp [isNamed, h] at hnamed
      have hstar : Port.parameter port ≠ "*" := by
        rintro h
        rw [isNamed, h] at hnamed
        revert hnamed
        decide
      rw [hs port hport hslash hstar]
    · simp [hnamed]

end Sources

/-! ## Blocks -/

theorem exists_lines_block (c : Collected) (p : Placed) :
    ∃ front back, ∀ f : Flow, lines (block f c p) =
      front ++ (bodyLines f c p).flatMap (fun line => lines (indented line)) ++ back := by
  refine ⟨lines (indented ("# --- Begin node: " ++ remarkText p.node.name ++ " (ID: "
    ++ remarkText p.node.id ++ ") ---")),
    lines (indented ("# --- End node: " ++ remarkText p.node.name ++ " ---")), ?_⟩
  intro f
  unfold block
  rw [lines_intercalate (by simp)]
  simp [List.flatMap_map]

theorem lines_indented_of_oneLine {line : String} (h : OneLine line) (hne : line ≠ "") :
    lines (indented line) = [indent ++ line] := by
  rw [lines_indented, lines_of_oneLine h]
  simp [hne]

/-- Output nodes show apart whether their input has a source. -/
theorem resolve?_of_sinkLines {f f' : Flow} {c : Collected} {p : Placed} {input : Port}
    {others : List Port} (hname : IsWord p.name) (hports : p.node.inputPorts = input :: others)
    {v : String} (hv : resolve? f' c p.node.id input.id = some v) (hword : IsWord v)
    {rest rest' : List String}
    (heq : (sinkLines f c p).flatMap (fun line => lines (indented line)) ++ rest =
      (sinkLines f' c p).flatMap (fun line => lines (indented line)) ++ rest') :
    resolve? f c p.node.id input.id ≠ none := by
  intro hnone
  obtain ⟨more, hmore⟩ := exists_sinkLines_eq (f := f) (c := c) hports
  obtain ⟨more', hmore'⟩ := exists_sinkLines_eq (f := f') (c := c) hports
  rw [hnone, Option.getD_none] at hmore
  rw [hv, Option.getD_some] at hmore'
  have hshown : OneLine (sinkVariable p.name ++ " = ") := by
    have hvariable : IsWord (sinkVariable p.name) :=
      IsWord.append (by simp [IsWord, isWordChar]) hname
    exact hvariable.oneLine.append (by simp [OneLine])
  have hopen : OneLine (sinkVariable p.name ++ " = "
      ++ ("None  # no source connected to " ++ remarkText p.node.name)) :=
    hshown.append ((show OneLine "None  # no source connected to " by simp [OneLine]).append
      (oneLine_remarkText _))
  rw [hmore, hmore', List.flatMap_cons, List.flatMap_cons,
    lines_indented_of_oneLine hopen (by simp),
    lines_indented_of_oneLine (hshown.append hword.oneLine) (by simp)] at heq
  -- the first line would hold a variable with a space in it
  have hfirst := (List.cons.inj heq).1
  have htext : "None  # no source connected to " ++ remarkText p.node.name = v := by
    simpa [String.append_assoc] using hfirst
  refine hword.not_mem (c := ' ') (by decide) ?_
  rw [← htext]
  simp

section Blocks

variable {p : Placed}

/-- A node whose ports are not shadowed has the same block and the same findings. -/
theorem block_eq_of_unshadowed (hp : p ∈ (Plan.ofFlow f).nodes)
    (h : ∀ port ∈ p.reads, ¬ Shadowed f p.node.id port.id) :
    block f (Plan.ofFlow f).collected p = block f.withoutDangling (Plan.ofFlow f).collected p ∧
    inputNotes f (Plan.ofFlow f).collected p =
      inputNotes f.withoutDangling (Plan.ofFlow f).collected p := by
  have hresolve : ∀ port ∈ p.reads, resolve? f (Plan.ofFlow f).collected p.node.id port.id =
      resolve? f.withoutDangling (Plan.ofFlow f).collected p.node.id port.id :=
    fun port hport => (resolve?_eq_iff hp port.id).1.mpr (h port hport)
  have hsame : bodyLines f (Plan.ofFlow f).collected p =
        bodyLines f.withoutDangling (Plan.ofFlow f).collected p ∧
      inputNotes f (Plan.ofFlow f).collected p =
        inputNotes f.withoutDangling (Plan.ofFlow f).collected p := by
    cases hk : p.node.kind with
    | function =>
      cases hcall : p.call? with
      | none => simp only [bodyLines, inputNotes, callLines, hk, Plan.call_at hp hk, hcall,
          Option.getD_some, and_self]
      | some function =>
        have hports : ∀ port ∈ p.node.inputPorts, Port.parameter port ≠ "/" →
            Port.parameter port ≠ "*" →
            resolve? f (Plan.ofFlow f).collected p.node.id port.id =
              resolve? f.withoutDangling (Plan.ofFlow f).collected p.node.id port.id := by
          intro port hport hslash hstar
          refine hresolve port ?_
          simp [Placed.reads, hk, hcall, hport, hslash, hstar]
        obtain ⟨hargs, hopen⟩ := arguments_congr hports false
        simp only [bodyLines, inputNotes, callLines, wiredInputs, hk, Plan.call_at hp hk, hcall,
          Option.getD_some, hargs, hopen, and_self]
    | output =>
      refine ⟨?_, by simp [inputNotes, hk]⟩
      simp only [bodyLines, hk, sinkLines]
      cases hports : p.node.inputPorts with
      | nil => rfl
      | cons input rest => simp only [hresolve input (by simp [Placed.reads, hk, hports])]
    | csvInput => simp [bodyLines, inputNotes, hk]
    | excelInput => simp [bodyLines, inputNotes, hk]
    | subFlow => simp [bodyLines, inputNotes, hk]
    | other name => simp [bodyLines, inputNotes, hk]
  exact ⟨by unfold block; rw [hsame.1], hsame.2⟩

theorem resolve?_loses (hp : p ∈ (Plan.ofFlow f).nodes) (portId : String) :
    resolve? f (Plan.ofFlow f).collected p.node.id portId =
        resolve? f.withoutDangling (Plan.ofFlow f).collected p.node.id portId ∨
      resolve? f (Plan.ofFlow f).collected p.node.id portId = none := by
  by_cases h : Shadowed f p.node.id portId
  · exact Or.inr ((resolve?_eq_iff hp portId).2 h)
  · exact Or.inl ((resolve?_eq_iff hp portId).1.mpr h)

theorem length_inputNotes (hp : p ∈ (Plan.ofFlow f).nodes) (hk : p.node.kind = .function)
    {function : String} (hcall : p.call? = some function) (g : Flow) :
    (inputNotes g (Plan.ofFlow f).collected p).length =
      (unconnected (wiredInputs g (Plan.ofFlow f).collected p.node)).length := by
  simp only [inputNotes, hk, Plan.call_at hp hk, hcall, Option.getD_some, List.length_map]

/-- A node has no fewer findings about open inputs with the connections that lead nowhere. -/
theorem length_inputNotes_le (hp : p ∈ (Plan.ofFlow f).nodes) :
    (inputNotes f.withoutDangling (Plan.ofFlow f).collected p).length ≤
      (inputNotes f (Plan.ofFlow f).collected p).length := by
  by_cases hk : p.node.kind = .function
  · cases hcall : p.call? with
    | none => simp [inputNotes, hk, Plan.call_at hp hk, hcall]
    | some function =>
      rw [length_inputNotes hp hk hcall, length_inputNotes hp hk hcall, wiredInputs, wiredInputs,
        unconnected_map, unconnected_map]
      exact length_filter_le_of_loses (fun port _ => resolve?_loses hp port.id)
  · have hnone : inputNotes f.withoutDangling (Plan.ofFlow f).collected p = [] := by
      unfold inputNotes
      split
      · next h _ => exact absurd h hk
      · rfl
    rw [hnone]
    exact Nat.zero_le _

theorem isIdentifier_of_resolve?_withoutDangling {id port v : String}
    (h : resolve? f.withoutDangling (Plan.ofFlow f).collected id port = some v) : IsIdentifier v := by
  rw [← (Plan.ofFlow_withoutDangling f).2.1] at h
  exact Plan.isIdentifier_of_resolve? h

/-- The lines of a call, each on its own. -/
theorem lines_bodyLines_of_call (hp : p ∈ (Plan.ofFlow f).nodes) (hk : p.node.kind = .function)
    {function : String} (hcall : p.call? = some function) {g : Flow}
    (hplain : ∀ a ∈ arguments false (wiredInputs g (Plan.ofFlow f).collected p.node), a.IsPlain) :
    (bodyLines g (Plan.ofFlow f).collected p).flatMap (fun line => lines (indented line)) =
      (assigned (Plan.targets f p) (callText function (arguments false
        (wiredInputs g (Plan.ofFlow f).collected p.node)))).map (indent ++ ·) := by
  have hbodyLines : bodyLines g (Plan.ofFlow f).collected p = assigned (Plan.targets f p)
      (callText function (arguments false (wiredInputs g (Plan.ofFlow f).collected p.node))) := by
    simp only [bodyLines, hk, callLines, Plan.call_at hp hk, Option.getD_some, hcall, Plan.targets]
  rw [hbodyLines, List.map_eq_flatMap]
  refine List.flatMap_congr ?_
  intro line hline
  have hone := oneLine_of_mem_assigned (Placed.isIdentifier_of_call? (Plan.isWord_name hp) hcall)
    (fun t ht => Plan.isIdentifier_of_mem_targets hp hk hcall ht) hplain line hline
  exact lines_indented_of_oneLine hone.1 hone.2

/-- A call with as many findings that starts the same text passes an argument for every port that
has a source without the connections that lead nowhere. -/
theorem unshadowed_of_call (hp : p ∈ (Plan.ofFlow f).nodes) (hk : p.node.kind = .function)
    {function : String} (hcall : p.call? = some function)
    (hnotes : (inputNotes f (Plan.ofFlow f).collected p).length ≤
      (inputNotes f.withoutDangling (Plan.ofFlow f).collected p).length)
    {rest rest' : List String}
    (hbody : (bodyLines f (Plan.ofFlow f).collected p).flatMap (fun line => lines (indented line))
        ++ rest =
      (bodyLines f.withoutDangling (Plan.ofFlow f).collected p).flatMap
        (fun line => lines (indented line)) ++ rest') :
    ∀ port ∈ p.reads, ¬ Shadowed f p.node.id port.id := by
  rw [length_inputNotes hp hk hcall, length_inputNotes hp hk hcall] at hnotes
  have hloses := fun (port : Port) (_ : port ∈ p.node.inputPorts) => resolve?_loses hp port.id
  have hnamed := named_eq_of_length_le hloses hnotes
  obtain ⟨-, hcomments, hall⟩ := arguments_of_named_eq hloses hnamed false
  have hplain : ∀ a ∈ arguments false (wiredInputs f (Plan.ofFlow f).collected p.node),
      a.IsPlain := fun a ha =>
    isPlain_of_mem_arguments (fun port v => Plan.isIdentifier_of_resolve?) ha
  have hplain' : ∀ a ∈ arguments false
      (wiredInputs f.withoutDangling (Plan.ofFlow f).collected p.node), a.IsPlain := fun a ha =>
    isPlain_of_mem_arguments (fun port v => isIdentifier_of_resolve?_withoutDangling) ha
  rw [lines_bodyLines_of_call hp hk hcall hplain, lines_bodyLines_of_call hp hk hcall hplain']
    at hbody
  have hlength := length_eq_of_assigned hplain hplain' hcomments hbody
  intro port hport
  have hread : port ∈ p.node.inputPorts ∧ Port.parameter port ≠ "/" ∧
      Port.parameter port ≠ "*" := by
    simpa [Placed.reads, hk, hcall] using hport
  exact (resolve?_eq_iff hp port.id).1.mp (hall hlength port hread.1 hread.2.1 hread.2.2)

/-- As many findings and the same lines as far as they go: no port that the block reads is
shadowed. -/
theorem unshadowed_of_lines (hp : p ∈ (Plan.ofFlow f).nodes)
    (hnotes : (inputNotes f (Plan.ofFlow f).collected p).length ≤
      (inputNotes f.withoutDangling (Plan.ofFlow f).collected p).length)
    {rest rest' : List String}
    (hlines : lines (block f (Plan.ofFlow f).collected p) ++ rest =
      lines (block f.withoutDangling (Plan.ofFlow f).collected p) ++ rest') :
    ∀ port ∈ p.reads, ¬ Shadowed f p.node.id port.id := by
  obtain ⟨front, back, hblock⟩ := exists_lines_block (Plan.ofFlow f).collected p
  rw [hblock, hblock, List.append_assoc, List.append_assoc, List.append_assoc, List.append_assoc]
    at hlines
  have hbody := List.append_cancel_left hlines
  cases hk : p.node.kind with
  | function =>
    cases hcall : p.call? with
    | none => simp [Placed.reads, hk, hcall]
    | some function => exact unshadowed_of_call hp hk hcall hnotes hbody
  | output =>
    intro port hport hshadow
    cases hports : p.node.inputPorts with
    | nil => simp [Placed.reads, hk, hports] at hport
    | cons input others =>
      obtain rfl : port = input := by simpa [Placed.reads, hk, hports] using hport
      obtain ⟨v, hv⟩ := hshadow.2
      have hword : IsWord v := (isIdentifier_of_resolve?_withoutDangling hv).word
      simp only [bodyLines, hk] at hbody
      exact resolve?_of_sinkLines (Plan.isWord_name hp) hports hv hword hbody
        ((resolve?_eq_iff hp port.id).2 hshadow)
  | csvInput => simp [Placed.reads, hk]
  | excelInput => simp [Placed.reads, hk]
  | subFlow => simp [Placed.reads, hk]
  | other name => simp [Placed.reads, hk]

end Blocks

/-! ## Scripts -/

theorem lines_intercalate_gap {blocks : List String} (h : blocks ≠ []) :
    lines (String.intercalate "\n\n" blocks) ++ [""] =
      blocks.flatMap (fun b => lines b ++ [""]) := by
  induction blocks with
  | nil => exact absurd rfl h
  | cons b rest ih =>
    by_cases hr : rest = []
    · simp [hr]
    · have hgap : b ++ "\n\n" ++ String.intercalate "\n\n" rest =
          b ++ "\n" ++ ("" ++ "\n" ++ String.intercalate "\n\n" rest) := by
        apply String.toList_injective
        simp
      rw [String.intercalate_cons_of_ne_nil hr, hgap, lines_append_newline, lines_append_newline,
        List.append_assoc, List.append_assoc, ih hr]
      simp [lines_of_oneLine (show OneLine "" by simp [OneLine])]

/-- The lines of a driver tell its blocks apart, if each block can be told from its lines. -/
theorem forall_of_flatMap_eq {α β : Type} {L L' : α → List β} {P : α → Prop} {l : List α}
    (hstep : ∀ a ∈ l, ∀ r r', L a ++ r = L' a ++ r' → P a) (hP : ∀ a ∈ l, P a → L a = L' a)
    (h : l.flatMap L = l.flatMap L') : ∀ a ∈ l, P a := by
  induction l with
  | nil => simp
  | cons a rest ih =>
    rw [List.flatMap_cons, List.flatMap_cons] at h
    have ha := hstep a List.mem_cons_self _ _ h
    rw [hP a List.mem_cons_self ha] at h
    have hrest := ih (fun b hb => hstep b (List.mem_cons_of_mem a hb))
      (fun b hb => hP b (List.mem_cons_of_mem a hb)) (List.append_cancel_left h)
    intro b hb
    rcases List.mem_cons.mp hb with rfl | hb
    · exact ha
    · exact hrest b hb

theorem driver_inj {blocks blocks' : List String} (hne : blocks ≠ []) (hne' : blocks' ≠ [])
    (h : driver blocks = driver blocks') :
    String.intercalate "\n\n" blocks = String.intercalate "\n\n" blocks' := by
  unfold driver at h
  rw [if_neg (by simpa using hne), if_neg (by simpa using hne')] at h
  simpa [String.append_assoc] using h

section Compiled

variable (f : Flow) (stamp : String)

/-- The scripts differ in nothing but the blocks. -/
theorem exists_script_withoutDangling :
    ∃ front, (f.compileAt stamp).script = front ++ driver ((Plan.ofFlow f).nodes.map
        (block f (Plan.ofFlow f).collected)) ∧
      (f.withoutDangling.compileAt stamp).script = front ++ driver ((Plan.ofFlow f).nodes.map
        (block f.withoutDangling (Plan.ofFlow f).collected)) := by
  obtain ⟨hnodes, hcollected, -⟩ := Plan.ofFlow_withoutDangling f
  refine ⟨_, rfl, ?_⟩
  simp only [Flow.compileAt, assemble, hnodes, hcollected]
  rfl

/-- The findings differ in those about connections that lead nowhere and about open inputs. -/
theorem exists_diagnostics_withoutDangling :
    ∃ notes, (f.compileAt stamp).diagnostics =
        (f.liveConnections.filter f.isDangling).map danglingNote ++ (notes
          ++ (Plan.ofFlow f).nodes.flatMap (inputNotes f (Plan.ofFlow f).collected)) ∧
      (f.withoutDangling.compileAt stamp).diagnostics =
        notes ++ (Plan.ofFlow f).nodes.flatMap
          (inputNotes f.withoutDangling (Plan.ofFlow f).collected) := by
  obtain ⟨hnodes, hcollected, hordering⟩ := Plan.ofFlow_withoutDangling f
  refine ⟨(Plan.ofFlow f.withoutDangling).ordering ++ (Plan.ofFlow f).collected.diagnostics, ?_, ?_⟩
  · simp only [Flow.compileAt, hordering, List.append_assoc]
  · simp only [Flow.compileAt, hnodes, hcollected]

variable {f stamp}

/-- As many findings in all: as many about the open inputs of each node. -/
theorem length_inputNotes_eq
    (h : ((Plan.ofFlow f).nodes.flatMap (inputNotes f (Plan.ofFlow f).collected)).length =
      ((Plan.ofFlow f).nodes.flatMap
        (inputNotes f.withoutDangling (Plan.ofFlow f).collected)).length) :
    ∀ p ∈ (Plan.ofFlow f).nodes, (inputNotes f (Plan.ofFlow f).collected p).length ≤
      (inputNotes f.withoutDangling (Plan.ofFlow f).collected p).length := by
  intro p hp
  by_contra hlt
  rw [List.length_flatMap, List.length_flatMap] at h
  have hsum := List.sum_lt_sum
    (fun p => (inputNotes f.withoutDangling (Plan.ofFlow f).collected p).length)
    (fun p => (inputNotes f (Plan.ofFlow f).collected p).length)
    (fun q hq => length_inputNotes_le hq) ⟨p, hp, Nat.lt_of_not_le hlt⟩
  omega

/-- The blocks of one script are those of the other only if no port is shadowed. -/
theorem unshadowed_of_driver
    (hnotes : ∀ p ∈ (Plan.ofFlow f).nodes, (inputNotes f (Plan.ofFlow f).collected p).length ≤
      (inputNotes f.withoutDangling (Plan.ofFlow f).collected p).length)
    (h : driver ((Plan.ofFlow f).nodes.map (block f (Plan.ofFlow f).collected)) =
      driver ((Plan.ofFlow f).nodes.map
        (block f.withoutDangling (Plan.ofFlow f).collected))) :
    ∀ p ∈ (Plan.ofFlow f).nodes, ∀ port ∈ p.reads, ¬ Shadowed f p.node.id port.id := by
  by_cases hne : (Plan.ofFlow f).nodes = []
  · simp [hne]
  · have hlines := congrArg (fun s => lines s ++ [""])
      (driver_inj (by simpa using hne) (by simpa using hne) h)
    rw [lines_intercalate_gap (by simpa using hne), lines_intercalate_gap (by simpa using hne),
      List.flatMap_map, List.flatMap_map] at hlines
    refine forall_of_flatMap_eq ?_ ?_ hlines
    · intro p hp r r' heq
      rw [List.append_assoc, List.append_assoc] at heq
      exact unshadowed_of_lines hp (hnotes p hp) heq
    · intro p hp hports
      rw [(block_eq_of_unshadowed hp hports).1]

/-- Scripts and findings agree only if no port that a block reads is shadowed. -/
theorem unshadowed_of_compileAt
    (hsame : (f.compileAt stamp).script = (f.withoutDangling.compileAt stamp).script)
    (hperm : (f.compileAt stamp).diagnostics.Perm
      ((f.liveConnections.filter f.isDangling).map danglingNote
        ++ (f.withoutDangling.compileAt stamp).diagnostics)) :
    ∀ p ∈ (Plan.ofFlow f).nodes, ∀ port ∈ p.reads, ¬ Shadowed f p.node.id port.id := by
  obtain ⟨front, hscript, hscript'⟩ := exists_script_withoutDangling f stamp
  obtain ⟨notes, hnotes, hnotes'⟩ := exists_diagnostics_withoutDangling f stamp
  rw [hscript, hscript'] at hsame
  rw [hnotes, hnotes'] at hperm
  have hlength := hperm.length_eq
  simp only [List.length_append] at hlength
  exact unshadowed_of_driver (length_inputNotes_eq (by omega)) (by simpa using hsame)

/-- Scripts and findings agree if no port that a block reads is shadowed. -/
theorem compileAt_of_unshadowed
    (h : ∀ p ∈ (Plan.ofFlow f).nodes, ∀ port ∈ p.reads, ¬ Shadowed f p.node.id port.id) :
    (f.compileAt stamp).script = (f.withoutDangling.compileAt stamp).script ∧
    (f.compileAt stamp).diagnostics = (f.liveConnections.filter f.isDangling).map danglingNote
      ++ (f.withoutDangling.compileAt stamp).diagnostics := by
  obtain ⟨front, hscript, hscript'⟩ := exists_script_withoutDangling f stamp
  obtain ⟨notes, hnotes, hnotes'⟩ := exists_diagnostics_withoutDangling f stamp
  have hblocks := List.map_congr_left (fun p hp => (block_eq_of_unshadowed hp (h p hp)).1)
  have hinputs := List.flatMap_congr (fun p hp => (block_eq_of_unshadowed hp (h p hp)).2)
  rw [hscript, hscript', hnotes, hnotes', hblocks, hinputs]
  exact ⟨rfl, rfl⟩

end Compiled

end Script

open Script

/-- A flow and the flow without its dangling connections have the same imports and the same order.
They have the same script, and the same findings but for one about each connection that is left out,
exactly when no port that a block reads is shadowed by a connection that leads nowhere. -/
theorem compileAt_withoutDangling (f : Flow) (stamp : String) :
    (f.compileAt stamp).imports = (f.withoutDangling.compileAt stamp).imports ∧
    (f.compileAt stamp).order = (f.withoutDangling.compileAt stamp).order ∧
    ((f.compileAt stamp).script = (f.withoutDangling.compileAt stamp).script ∧
        (f.compileAt stamp).diagnostics.Perm
          ((f.liveConnections.filter f.isDangling).map danglingNote
            ++ (f.withoutDangling.compileAt stamp).diagnostics) ↔
      ∀ p ∈ (Plan.ofFlow f).nodes, ∀ port ∈ p.reads, ¬ Shadowed f p.node.id port.id) := by
  obtain ⟨hnodes, hcollected, -⟩ := Plan.ofFlow_withoutDangling f
  refine ⟨?_, ?_, ?_, ?_⟩
  · simp only [Flow.compileAt, hcollected]
  · simp only [Flow.compileAt, hnodes]
  · rintro ⟨hsame, hperm⟩
    exact unshadowed_of_compileAt hsame hperm
  · intro h
    obtain ⟨hscript, hnotes⟩ := compileAt_of_unshadowed h
    exact ⟨hscript, hnotes ▸ List.Perm.refl _⟩

/-- An output node that two connections lead to, the first of them from a missing node. -/
def ghostFlow : Flow :=
  { nodes := [
      some { id := "a", kind := .function, name := "a"
             outputs := [some { id := "p", nodeId := "a", direction := .output }]
             payload := some (.function { code := "def f():\n    return 1" }) },
      some { id := "s", kind := .output, name := "s"
             inputs := [some { id := "i", nodeId := "s", direction := .input }]
             payload := some (.output {}) }]
    connections := [some ⟨"g", "ghost", "x", "s", "i"⟩, some ⟨"c", "a", "p", "s", "i"⟩] }

/-- The connection from the missing node is not ignored: it hides the other one. -/
theorem ghostFlow_not_ignored :
    ¬ ∀ (f : Flow) (stamp : String),
      (f.compileAt stamp).script = (f.withoutDangling.compileAt stamp).script ∧
      (f.compileAt stamp).imports = (f.withoutDangling.compileAt stamp).imports ∧
      (f.compileAt stamp).order = (f.withoutDangling.compileAt stamp).order ∧
      (f.compileAt stamp).diagnostics.Perm
        ((f.liveConnections.filter f.isDangling).map danglingNote
          ++ (f.withoutDangling.compileAt stamp).diagnostics) := by
  intro h
  obtain ⟨hsame, -, -, hperm⟩ := h ghostFlow "2024-01-02T03:04:05Z"
  obtain ⟨a, s, hnodes, hid, hreads⟩ : ∃ a s, (Plan.ofFlow ghostFlow).nodes = [a, s] ∧
      s.node.id = "s" ∧ ∃ port rest, s.reads = port :: rest ∧ port.id = "i" :=
    ⟨_, _, rfl, rfl, _, _, rfl, rfl⟩
  obtain ⟨port, rest, hreads, hport⟩ := hreads
  have hshadowed : Shadowed ghostFlow "s" "i" :=
    ⟨⟨_, rfl, by decide +kernel⟩, "f_output_a", by decide +kernel⟩
  refine unshadowed_of_compileAt hsame hperm s (by simp [hnodes]) port (by simp [hreads]) ?_
  rw [hid, hport]
  exact hshadowed

end FlowScript
