import FlowScript.Proofs.Flow.Editing

/-!
# Edited flows are regular

What every flow looks like that was edited from an empty one, as long as the ids of new ports are not
in use: nothing is missing in its lists, every port has a source name and says where it is, and every
connection leads from a port to a port. Ids of nodes may be given twice; then the first node counts.

## Main definitions

- `Flow.listing` — a flow with other nodes and connections
- `Node.Regular`, `Flow.Regular` — the invariant
- `Editing.mintedPorts`, `Editing.MintsFresh` — the ports that edits mint have ids of their own

## Main results

- `Flow.Regular.updateCode` — new code keeps a flow regular
- `Editing.step_regular` — one edit keeps a flow regular
- `Editing.run_regular` — a run keeps a flow regular
-/

namespace FlowScript

/-! ## Flows by their parts -/

namespace Flow

variable {f : Flow} {before after : List Node}

/-- The flow with the given nodes and connections and no others. -/
def listing (f : Flow) (nodes : List Node) (wires : List Connection) : Flow :=
  { f with
    nodes := nodes.map some
    connections := wires.map some
    nodesListed := true
    connectionsListed := true }

@[simp]
theorem liveNodes_listing (f : Flow) (nodes : List Node) (wires : List Connection) :
    (f.listing nodes wires).liveNodes = nodes := by
  simp [listing, liveNodes, List.filterMap_map]

@[simp]
theorem liveConnections_listing (f : Flow) (nodes : List Node) (wires : List Connection) :
    (f.listing nodes wires).liveConnections = wires := by
  simp [listing, liveConnections, List.filterMap_map]

/-- The first node with an id, and the nodes around it. -/
theorem node?_split {id : String} {n : Node} (h : f.node? id = some n) :
    ∃ before after, f.liveNodes = before ++ n :: after ∧ ∀ m ∈ before, m.id ≠ n.id := by
  obtain ⟨hid, before, after, hnodes, hbefore⟩ := List.find?_eq_some_iff_append.mp h
  obtain rfl := beq_iff_eq.mp hid
  exact ⟨before, after, hnodes, fun m hm => by simpa using hbefore m hm⟩

/-- A change of the first node with an id. -/
theorem updateFirst_append {n : Node} (change : Node → Node) (hbefore : ∀ m ∈ before, m.id ≠ n.id)
    (after : List Node) :
    updateFirst n.id change ((before ++ n :: after).map some) =
      (before ++ change n :: after).map some := by
  induction before with
  | nil => simp [updateFirst]
  | cons m rest ih =>
    have hm : m.id ≠ n.id := hbefore m List.mem_cons_self
    have hrest := ih (fun k hk => hbefore k (List.mem_cons_of_mem m hk))
    simp only [List.cons_append, List.map_cons, updateFirst, beq_eq_false_iff_ne.mpr hm, hrest,
      Bool.false_eq_true, if_false]

/-- After a change of the first node with an id, the changed node is found under it. -/
theorem node?_listing_append {n n' : Node} (hnodes : f.liveNodes = before ++ n :: after)
    (hbefore : ∀ m ∈ before, m.id ≠ n.id) (hid : n'.id = n.id) (wires : List Connection)
    (id : String) :
    (f.listing (before ++ n' :: after) wires).node? id =
      if id = n.id then some n' else f.node? id := by
  simp only [node?, hnodes, liveNodes_listing, List.find?_append, List.find?_cons, hid]
  by_cases h : id = n.id
  · have hnone : before.find? (fun m => m.id == id) = none := by
      rw [List.find?_eq_none]
      intro m hm
      simpa [h] using hbefore m hm
    rw [hnone]
    simp [h]
  · simp [h, beq_eq_false_iff_ne.mpr (Ne.symm h)]

end Flow

/-- A connection keeps its ends where its nodes are still found. -/
theorem Connection.Joins.mono {f g : Flow} {c : Connection} (h : c.Joins f)
    (hsource : ∀ n, f.node? c.sourceNode = some n → g.node? c.sourceNode = some n)
    (htarget : ∀ n, f.node? c.targetNode = some n → g.node? c.targetNode = some n) :
    c.Joins g := by
  obtain ⟨⟨source, hs, hout⟩, target, ht, hin⟩ := h
  exact ⟨⟨source, hsource source hs, hout⟩, target, htarget target ht, hin⟩

/-- A connection has its ports on the node that is found under its ends. -/
theorem Connection.Joins.survives {f : Flow} {c : Connection} (h : c.Joins f) {n : Node}
    (hn : f.node? n.id = some n) : Flow.survives n c = true := by
  obtain ⟨⟨source, hs, hout⟩, target, ht, hin⟩ := h
  simp only [Flow.survives, Bool.and_eq_true, Bool.or_eq_true, bne_iff_ne]
  refine ⟨?_, ?_⟩
  · by_cases hid : c.targetNode = n.id
    · obtain rfl : target = n := Option.some.inj ((hid ▸ ht).symm.trans hn)
      exact Or.inr hin
    · exact Or.inl hid
  · by_cases hid : c.sourceNode = n.id
    · obtain rfl : source = n := Option.some.inj ((hid ▸ hs).symm.trans hn)
      exact Or.inr hout
    · exact Or.inl hid

/-- Nothing is missing in a node. -/
theorem Node.settled_eq_iff {n : Node} :
    n.settled = n ↔ n.inputPorts.map some = n.inputs ∧ n.outputPorts.map some = n.outputs ∧
      n.payload.map Payload.settled = n.payload := by
  cases n
  simp [Node.settled]

theorem Port.PlacedAt.renamed {p : Port} {nodeId : String} {direction : Direction}
    (h : p.PlacedAt nodeId direction) (name : String) :
    (Flow.renamed p name).PlacedAt nodeId direction :=
  ⟨by simp [Flow.renamed, h.named], h.node, h.side⟩

/-- Ports stay at their place when one of them is renamed. -/
theorem Flow.renameIn_placed (id name : String) {ports : List Port} {nodeId : String}
    {direction : Direction} (h : ∀ p ∈ ports, p.PlacedAt nodeId direction) :
    ∃ ports' : List Port, renameIn id name (ports.map some) = ports'.map some ∧
      ∀ q ∈ ports', q.PlacedAt nodeId direction := by
  induction ports with
  | nil => exact ⟨[], rfl, by simp⟩
  | cons p rest ih =>
    have hrest : ∀ q ∈ rest, q.PlacedAt nodeId direction :=
      fun q hq => h q (List.mem_cons_of_mem p hq)
    have hp := h p List.mem_cons_self
    by_cases hid : p.id = id
    · refine ⟨renamed p name :: rest, by simp [renameIn, hid], ?_⟩
      exact List.forall_mem_cons.mpr ⟨hp.renamed name, hrest⟩
    · obtain ⟨ports', heq, hplaced⟩ := ih hrest
      refine ⟨p :: ports', by simp [renameIn, hid, heq], ?_⟩
      exact List.forall_mem_cons.mpr ⟨hp, hplaced⟩

/-- New ports are at their place. -/
theorem newPortsFrom_placed {nodeId : String} {direction : Direction} {names : List String}
    (h : ∀ name ∈ names, name ≠ "") (index : Nat) (s : Supply) :
    ∀ p ∈ (newPortsFrom nodeId direction index names s).1, p.PlacedAt nodeId direction := by
  induction names generalizing index s with
  | nil => simp [newPortsFrom]
  | cons name rest ih =>
    have hnew := newPort_mintedFor nodeId direction name index s
    refine List.forall_mem_cons.mpr ⟨⟨?_, hnew.node, hnew.side⟩, ?_⟩
    · exact hnew.source.symm ▸ h name List.mem_cons_self
    · exact ih (fun other hother => h other (List.mem_cons_of_mem name hother)) (index + 1) _

/-! ## The invariant -/

/-- A node with nothing missing, of a supported kind, whose ports are at their place. -/
structure Node.Regular (n : Node) : Prop where
  settled : n.settled = n
  carries : n.payload.isSome = true
  fits : n.Fits
  inputs : ∀ p ∈ n.inputPorts, p.PlacedAt n.id .input
  outputs : ∀ p ∈ n.outputPorts, p.PlacedAt n.id .output

/-- A flow of regular nodes whose ports have different ids, with connections between them. -/
structure Flow.Regular (f : Flow) : Prop where
  nodes : ∀ n ∈ f.liveNodes, n.Regular
  ports_nodup : (portIdsOf f.liveNodes).Nodup
  joins : ∀ c ∈ f.liveConnections, c.Joins f

namespace Node

theorem Regular.exists_function? {n : Node} (h : n.Regular) (hkind : n.kind = .function) :
    ∃ data, n.function? = some data := by
  obtain ⟨payload, hpayload⟩ := Option.isSome_iff_exists.mp h.carries
  have hfits := h.fits.2
  simp only [carriesFitting, hpayload, hkind] at hfits
  exact Option.isSome_iff_exists.mp hfits

/-- A new node of a supported kind is regular. -/
theorem regular_builtNode {kind : NodeKind} {payload : Payload} {ins outs : List String}
    (hfits : ∀ n : Node, n.kind = kind → n.payload = some payload → n.Fits)
    (hsettled : payload.settled = payload) (hnames : ∀ name ∈ ins ++ outs, name ≠ "")
    (id name : String) (position : Position) (s : Supply) :
    (Flow.builtNode id kind name position ins outs payload s).1.Regular := by
  refine ⟨settled_eq_iff.mpr ?_, rfl, hfits _ rfl rfl, ?_, ?_⟩
  · simp [Flow.builtNode, inputPorts, outputPorts, List.filterMap_map, hsettled]
  · simpa [Flow.builtNode, newPorts, inputPorts, List.filterMap_map] using
      newPortsFrom_placed (fun name hname => hnames name (List.mem_append_left _ hname)) 0 s
  · simpa [Flow.builtNode, newPorts, outputPorts, List.filterMap_map] using
      newPortsFrom_placed (fun name hname => hnames name (List.mem_append_right _ hname)) 0 _

/-- A function node is regular with new code. -/
theorem regular_recoded {n : Node} (hkind : n.kind = .function) (data : FunctionData)
    (code : String) (s : Supply) : (n.recoded data code s).Regular := by
  obtain ⟨hins, houts⟩ := Signature.named code
  refine ⟨settled_eq_iff.mpr ?_, rfl, fits_recoded hkind data code s,
    (n.recoded_inputs data code s).placed hins, (n.recoded_outputs data code s).placed houts⟩
  simp [Node.recoded, inputPorts, outputPorts, List.filterMap_map, Payload.settled]

end Node

theorem portIdsOf_append (nodes nodes' : List Node) :
    portIdsOf (nodes ++ nodes') = portIdsOf nodes ++ portIdsOf nodes' :=
  List.flatMap_append

namespace Flow.Regular

variable {f : Flow}

/-- Editing takes a regular flow as it is. -/
theorem settled_eq (h : f.Regular) : f.settled = f.listing f.liveNodes f.liveConnections := by
  have hnodes : f.liveNodes.map (fun n => some n.settled) = f.liveNodes.map some :=
    List.map_congr_left (fun n hn => congrArg some (h.nodes n hn).settled)
  rw [settled, listing, hnodes]

theorem portIds_nodup (h : f.Regular) {n : Node} (hn : n ∈ f.liveNodes) :
    (n.ports.map (·.id)).Nodup :=
  (List.nodup_flatMap.mp h.ports_nodup).1 n hn

theorem id_mem_portIdsOf {nodes : List Node} {n : Node} (hn : n ∈ nodes) {p : Port}
    (hp : p ∈ n.ports) : p.id ∈ portIdsOf nodes :=
  List.mem_flatMap.mpr ⟨n, hn, List.mem_map_of_mem hp⟩

/-- Some of the connections may go. -/
theorem sublist (h : f.Regular) {wires : List Connection} (hsub : wires ⊆ f.liveConnections) :
    (f.listing f.liveNodes wires).Regular where
  nodes n hn := h.nodes n (by simpa using hn)
  ports_nodup := by simpa using h.ports_nodup
  joins c hc := by
    have hnode : ∀ id, (f.listing f.liveNodes wires).node? id = f.node? id := by simp [node?]
    refine (h.joins c (hsub (by simpa using hc))).mono ?_ ?_ <;> simp [hnode]

/-- The first node with an id may change, if only connections stay that have their ports on it. -/
theorem replace (h : f.Regular) {before after : List Node} {n n' : Node}
    {wires : List Connection} (hnodes : f.liveNodes = before ++ n :: after)
    (hbefore : ∀ m ∈ before, m.id ≠ n.id) (hid : n'.id = n.id) (hregular : n'.Regular)
    (hports : (portIdsOf (before ++ n' :: after)).Nodup) (hsub : wires ⊆ f.liveConnections)
    (hsurvive : ∀ c ∈ wires, survives n' c = true) :
    (f.listing (before ++ n' :: after) wires).Regular where
  nodes := by
    intro m hm
    rw [liveNodes_listing, List.mem_append, List.mem_cons] at hm
    rcases hm with hm | rfl | hm
    · exact h.nodes m (by simp [hnodes, hm])
    · exact hregular
    · exact h.nodes m (by simp [hnodes, hm])
  ports_nodup := by rwa [liveNodes_listing]
  joins := by
    intro c hc
    rw [liveConnections_listing] at hc
    obtain ⟨⟨source, hs, hout⟩, target, ht, hin⟩ := h.joins c (hsub hc)
    have hsame := hsurvive c hc
    simp only [survives, hid, Bool.and_eq_true, Bool.or_eq_true, bne_iff_ne] at hsame
    have hfind := node?_listing_append hnodes hbefore hid wires
    -- each end is on the changed node, where the connection has its port, or on another one
    refine ⟨?_, ?_⟩
    · rw [hfind]
      split
      · next hchanged => exact ⟨n', rfl, hsame.2.resolve_left (fun hne => hne hchanged)⟩
      · exact ⟨source, hs, hout⟩
    · rw [hfind]
      split
      · next hchanged => exact ⟨n', rfl, hsame.1.resolve_left (fun hne => hne hchanged)⟩
      · exact ⟨target, ht, hin⟩

/-! ## One edit -/

/-- A change that keeps the id and the ids of the ports of a node. -/
theorem updateFirst (h : f.Regular) {id : String} {n : Node} (hn : f.settled.node? id = some n)
    {change : Node → Node} (hface : (change n).face = n.face) (hregular : (change n).Regular) :
    Regular { f.settled with nodes := Flow.updateFirst id change f.settled.nodes } := by
  rw [h.settled_eq] at hn ⊢
  obtain ⟨-, rfl⟩ := node?_spec hn
  have hfound : f.node? n.id = some n := by simpa [node?] using hn
  obtain ⟨before, after, hnodes, hbefore⟩ := node?_split hfound
  have hid : (change n).id = n.id := congrArg Face.id hface
  have hins : ∀ port, (change n).hasInput port = n.hasInput port := fun port => by
    rw [Bool.eq_iff_iff, Node.hasInput_iff, Node.hasInput_iff, hface]
  have houts : ∀ port, (change n).hasOutput port = n.hasOutput port := fun port => by
    rw [Bool.eq_iff_iff, Node.hasOutput_iff, Node.hasOutput_iff, hface]
  have hports : portIdsOf (before ++ change n :: after) = portIdsOf f.liveNodes := by
    have hsame : (change n).ports.map (·.id) = n.ports.map (·.id) := by
      rw [← Node.face_ports, hface, Node.face_ports]
    rw [hnodes, portIdsOf_append, portIdsOf_append, portIdsOf_cons, portIdsOf_cons, hsame]
  have hresult : (f.listing (before ++ change n :: after) f.liveConnections).Regular := by
    refine h.replace hnodes hbefore hid hregular (hports ▸ h.ports_nodup) (List.Subset.refl _) ?_
    intro c hc
    simpa [survives, hid, hins, houts] using (h.joins c hc).survives hfound
  have hchanged := updateFirst_append change hbefore after
  rw [← hnodes] at hchanged
  simpa only [listing, hchanged] using hresult

theorem moveNode (h : f.Regular) {nodeId : String} {position : Position} {f' : Flow}
    (hok : f.moveNode nodeId position = .ok f') : f'.Regular := by
  unfold Flow.moveNode at hok
  dsimp only at hok
  split at hok
  · next hhas =>
    obtain ⟨n, hn⟩ := Option.isSome_iff_exists.mp hhas
    obtain rfl := Except.ok.inj hok
    have hmem := (node?_spec hn).1
    rw [h.settled_eq, liveNodes_listing] at hmem
    obtain ⟨hsettled, hcarries, hfits, hins, houts⟩ := h.nodes n hmem
    have hparts := Node.settled_eq_iff.mp hsettled
    exact h.updateFirst hn rfl ⟨Node.settled_eq_iff.mpr hparts, hcarries, hfits, hins, houts⟩
  · cases hok

theorem renamePort (h : f.Regular) {nodeId portId name : String} {f' : Flow}
    (hok : f.renamePort nodeId portId name = .ok f') : f'.Regular := by
  unfold Flow.renamePort at hok
  dsimp only at hok
  split at hok
  · cases hok
  · next n hn =>
    have hmem := (node?_spec hn).1
    rw [h.settled_eq, liveNodes_listing] at hmem
    obtain ⟨hsettled, hcarries, hfits, hins, houts⟩ := h.nodes n hmem
    obtain ⟨hinputs, houtputs, hpayload⟩ := Node.settled_eq_iff.mp hsettled
    split at hok
    · obtain rfl := Except.ok.inj hok
      obtain ⟨ports, heq, hplaced⟩ := renameIn_placed portId name hins
      rw [hinputs] at heq
      refine h.updateFirst hn ?_
        ⟨Node.settled_eq_iff.mpr ⟨?_, houtputs, hpayload⟩, hcarries, hfits, ?_, houts⟩
      · simp [Node.face, Node.inputPorts, Node.outputPorts, renameIn_ids]
      · simp [Node.inputPorts, heq, List.filterMap_map]
      · simpa [Node.inputPorts, heq, List.filterMap_map] using hplaced
    · split at hok
      · obtain rfl := Except.ok.inj hok
        obtain ⟨ports, heq, hplaced⟩ := renameIn_placed portId name houts
        rw [houtputs] at heq
        refine h.updateFirst hn ?_
          ⟨Node.settled_eq_iff.mpr ⟨hinputs, ?_, hpayload⟩, hcarries, hfits, hins, ?_⟩
        · simp [Node.face, Node.inputPorts, Node.outputPorts, renameIn_ids]
        · simp [Node.outputPorts, heq, List.filterMap_map]
        · simpa [Node.outputPorts, heq, List.filterMap_map] using hplaced
      · cases hok

theorem deleteNode (h : f.Regular) {nodeId : String} {f' : Flow}
    (hok : f.deleteNode nodeId = .ok f') : f'.Regular := by
  unfold Flow.deleteNode at hok
  split at hok
  · obtain rfl := Except.ok.inj hok
    have hresult : (f.listing (f.liveNodes.filter (fun n => n.id != nodeId))
        (f.liveConnections.filter
          (fun c => c.sourceNode != nodeId && c.targetNode != nodeId))).Regular := by
      refine ⟨?_, ?_, ?_⟩
      · intro n hn
        rw [liveNodes_listing] at hn
        exact h.nodes n (List.mem_of_mem_filter hn)
      · rw [liveNodes_listing]
        exact h.ports_nodup.sublist (List.filter_sublist.flatMap _)
      · intro c hc
        rw [liveConnections_listing] at hc
        obtain ⟨hmem, htouch⟩ := List.mem_filter.mp hc
        simp only [Bool.and_eq_true, bne_iff_ne] at htouch
        -- other nodes are found as before
        have hfind : ∀ id, id ≠ nodeId → ∀ n, f.node? id = some n →
            (f.listing (f.liveNodes.filter (fun n => n.id != nodeId)) (f.liveConnections.filter
              (fun c => c.sourceNode != nodeId && c.targetNode != nodeId))).node? id = some n := by
          intro id hne n hn
          rw [node?, liveNodes_listing, List.find?_filter, ← hn, node?]
          congr 1
          funext m
          by_cases hm : m.id = id
          · simp [hm, hne]
          · simp [hm]
        exact (h.joins c hmem).mono (hfind _ htouch.1) (hfind _ htouch.2)
    simp only [h.settled_eq, liveNodes_listing, liveConnections_listing]
    exact hresult
  · cases hok

theorem deleteConnection (h : f.Regular) (id : String) : (f.deleteConnection id).Regular := by
  have hresult : (f.listing f.liveNodes (f.liveConnections.filter (fun c => c.id != id))).Regular :=
    h.sublist (List.filter_subset_self _)
  simp only [Flow.deleteConnection, h.settled_eq, liveConnections_listing]
  exact hresult

theorem addConnection (h : f.Regular) {c c' : Connection} {s : Supply} {f' : Flow}
    (hok : (f.addConnection c s).1 = .ok (f', c')) : f'.Regular := by
  obtain ⟨source, target, hsource, htarget, hout, hin, -, ⟨id, rfl⟩, rfl⟩ :=
    addConnection_cases hok
  have hresult : (f.listing f.liveNodes (f.liveConnections ++ [{ c with id := id }])).Regular := by
    have hfind : ∀ key, (f.listing f.liveNodes (f.liveConnections ++ [{ c with id := id }])).node?
        key = f.node? key := by simp [node?]
    refine ⟨by simpa using h.nodes, by simpa using h.ports_nodup, ?_⟩
    intro d hd
    rw [liveConnections_listing] at hd
    rcases List.mem_append.mp hd with hd | hd
    · refine (h.joins d hd).mono ?_ ?_ <;> simp [hfind]
    · obtain rfl := List.mem_singleton.mp hd
      exact ⟨⟨source, by rw [hfind, hsource], hout⟩, target, by rw [hfind, htarget], hin⟩
  simpa [h.settled_eq, listing] using hresult

/-- A node may be added when its ports have ids of their own. -/
theorem withNode (h : f.Regular) {n : Node} (hregular : n.Regular)
    (hnodup : (n.ports.map (·.id)).Nodup)
    (hfresh : ∀ id ∈ n.ports.map (·.id), id ∉ portIdsOf f.liveNodes) : (f.withNode n).Regular := by
  have hresult : (f.listing (f.liveNodes ++ [n]) f.liveConnections).Regular := by
    refine ⟨?_, ?_, ?_⟩
    · intro m hm
      rw [liveNodes_listing] at hm
      rcases List.mem_append.mp hm with hm | hm
      · exact h.nodes m hm
      · exact List.mem_singleton.mp hm ▸ hregular
    · rw [liveNodes_listing, portIdsOf_append, portIdsOf_cons, List.nodup_append]
      refine ⟨h.ports_nodup, by simpa [portIdsOf] using hnodup, ?_⟩
      rintro id hid _ hid' rfl
      exact hfresh id (by simpa [portIdsOf] using hid') hid
    · intro c hc
      rw [liveConnections_listing] at hc
      -- a node that is found is found before the new one
      have hfind : ∀ id m, f.node? id = some m →
          (f.listing (f.liveNodes ++ [n]) f.liveConnections).node? id = some m := by
        intro id m hm
        rw [node?] at hm
        rw [node?, liveNodes_listing, List.find?_append, hm, Option.some_or]
      exact (h.joins c hc).mono (hfind _) (hfind _)
  simpa [Flow.withNode, h.settled_eq, listing] using hresult

/-- New code for a function node. -/
theorem updateCode_eq (h : f.Regular) {n : Node} {data : FunctionData} {before after : List Node}
    (hdata : n.function? = some data) (hkind : n.kind = .function)
    (hnodes : f.liveNodes = before ++ n :: after) (hbefore : ∀ m ∈ before, m.id ≠ n.id)
    (code : String) (s : Supply) :
    f.updateCode n.id code s =
      (.ok (f.listing (before ++ n.recoded data code s :: after)
        (f.liveConnections.filter (survives (n.recoded data code s)))),
        s.after (n.minted code s).length) := by
  have hn : f.settled.node? n.id = some n := by
    rw [h.settled_eq, hnodes, node?, liveNodes_listing, List.find?_append,
      List.find?_eq_none.mpr (by simpa using hbefore)]
    simp
  have hchanged := updateFirst_append (fun _ => n.recoded data code s) hbefore after
  rw [updateCode_of_function hn hdata hkind, h.settled_eq, liveConnections_listing, hnodes]
  simp only [listing, hchanged]

/-- New code keeps a flow regular, when the ids of new ports are new ones. -/
theorem updateCode (h : f.Regular) {n : Node} {before after : List Node}
    (hkind : n.kind = .function) (hnodes : f.liveNodes = before ++ n :: after)
    (hbefore : ∀ m ∈ before, m.id ≠ n.id) {code : String} {s : Supply}
    (hminted : (n.minted code s).Nodup)
    (hfresh : ∀ id ∈ n.minted code s, id ∉ portIdsOf f.liveNodes) (data : FunctionData) :
    (f.listing (before ++ n.recoded data code s :: after)
      (f.liveConnections.filter (survives (n.recoded data code s)))).Regular := by
  have hn : n ∈ f.liveNodes := by simp [hnodes]
  have hnew : ((n.recoded data code s).ports.map (·.id)).Nodup :=
    Node.recoded_ids_nodup (h.portIds_nodup hn) hminted
      (fun p hp hmem => hfresh p.id hmem (id_mem_portIdsOf hn hp))
  have hports := h.ports_nodup
  rw [hnodes, portIdsOf_append, portIdsOf_cons] at hports hfresh
  refine h.replace hnodes hbefore rfl (Node.regular_recoded hkind data code s) ?_
    (List.filter_subset_self _) (fun c hc => (List.mem_filter.mp hc).2)
  rw [portIdsOf_append, portIdsOf_cons]
  exact nodup_replaced hports hnew (fun id hid => (Node.recoded_id_cases hid).imp_right (hfresh id))

end Flow.Regular

/-! ## Runs -/

namespace Editing

/-- The ids of the ports that an edit mints. -/
def mintedPorts (e : Editing) : Edit → List String
  | .addNode kind name position options =>
    match (Node.new kind name position options e.supply).1 with
    | .ok n => n.ports.map (·.id)
    | .error _ => []
  | .updateCode nodeId code =>
    match e.flow.node? nodeId with
    | some n => if n.kind = .function then n.minted code e.supply else []
    | none => []
  | _ => []

/-- The ports that are minted by edits, one after the other, have ids that no port has then. -/
def MintsFresh (e : Editing) : List Edit → Prop
  | [] => True
  | edit :: rest =>
    ((e.mintedPorts edit).Nodup ∧ ∀ id ∈ e.mintedPorts edit, id ∉ portIdsOf e.flow.liveNodes) ∧
      (e.step edit).MintsFresh rest

instance decidableMintsFresh : (e : Editing) → (edits : List Edit) → Decidable (e.MintsFresh edits)
  | _, [] => .isTrue trivial
  | e, edit :: rest =>
    have := decidableMintsFresh (e.step edit) rest
    inferInstanceAs (Decidable (_ ∧ _))

variable {e : Editing}

theorem mintsFresh_append {edits rest : List Edit} :
    e.MintsFresh (edits ++ rest) ↔ e.MintsFresh edits ∧ (e.run edits).MintsFresh rest := by
  induction edits generalizing e with
  | nil => simp [MintsFresh, run]
  | cons edit edits ih =>
    have hrun : e.run (edit :: edits) = (e.step edit).run edits := rfl
    rw [List.cons_append, MintsFresh, MintsFresh, ih, hrun, and_assoc (b := (MintsFresh _ edits))]

theorem addNode_regular (h : e.flow.Regular) (kind : NodeKind) (name : String)
    (position : Position) (options : NodeOptions)
    (hnodup : (e.mintedPorts (.addNode kind name position options)).Nodup)
    (hfresh : ∀ id ∈ e.mintedPorts (.addNode kind name position options),
      id ∉ portIdsOf e.flow.liveNodes) :
    (e.step (.addNode kind name position options)).flow.Regular := by
  refine step_of_ok Flow.Regular h ?_
  intro f hok
  rcases Flow.newNode_cases kind name position options e.supply with
    ⟨ins, outs, payload, hnew, hfits, hsettled, hnames⟩ | ⟨error, hnew⟩
  · simp only [mintedPorts, hnew] at hnodup hfresh
    simp only [Edit.apply, Flow.addNode, hnew, Except.map] at hok
    obtain rfl := Except.ok.inj hok
    exact h.withNode (Node.regular_builtNode hfits hsettled hnames ..) hnodup hfresh
  · simp [Edit.apply, Flow.addNode, hnew, Except.map] at hok

theorem updateCode_regular (h : e.flow.Regular) (nodeId code : String)
    (hnodup : (e.mintedPorts (.updateCode nodeId code)).Nodup)
    (hfresh : ∀ id ∈ e.mintedPorts (.updateCode nodeId code), id ∉ portIdsOf e.flow.liveNodes) :
    (e.step (.updateCode nodeId code)).flow.Regular := by
  refine step_of_ok Flow.Regular h ?_
  intro f hok
  simp only [Edit.apply] at hok
  rcases Flow.function_or_refused e.flow nodeId code e.supply with
    ⟨n, data, hn, hdata, hkind⟩ | ⟨error, hrefused⟩
  · obtain ⟨-, rfl⟩ := Flow.node?_spec hn
    have hfound : e.flow.node? n.id = some n := by
      simpa [h.settled_eq, Flow.node?] using hn
    obtain ⟨before, after, hnodes, hbefore⟩ := Flow.node?_split hfound
    rw [h.updateCode_eq hdata hkind hnodes hbefore] at hok
    obtain rfl := Except.ok.inj hok
    simp only [mintedPorts, hfound, hkind, if_true] at hnodup hfresh
    exact h.updateCode hkind hnodes hbefore hnodup hfresh data
  · simp [hrefused] at hok

/-- One edit keeps a flow regular, when the ports that it mints have ids of their own. -/
theorem step_regular (h : e.flow.Regular) (edit : Edit) (hnodup : (e.mintedPorts edit).Nodup)
    (hfresh : ∀ id ∈ e.mintedPorts edit, id ∉ portIdsOf e.flow.liveNodes) :
    (e.step edit).flow.Regular := by
  cases edit with
  | addNode kind name position options =>
    exact addNode_regular h kind name position options hnodup hfresh
  | updateCode nodeId code => exact updateCode_regular h nodeId code hnodup hfresh
  | renamePort nodeId portId name =>
    exact step_of_ok Flow.Regular h (fun f hok => h.renamePort hok)
  | moveNode nodeId position => exact step_of_ok Flow.Regular h (fun f hok => h.moveNode hok)
  | deleteNode nodeId => exact step_of_ok Flow.Regular h (fun f hok => h.deleteNode hok)
  | addConnection c =>
    refine step_of_ok Flow.Regular h ?_
    intro f hok
    simp only [Edit.apply] at hok
    cases hmade : (e.flow.addConnection c e.supply).1 with
    | error error => simp [hmade, Except.map] at hok
    | ok made =>
      obtain ⟨f', c'⟩ := made
      rw [hmade] at hok
      obtain rfl : f' = f := Except.ok.inj hok
      exact h.addConnection hmade
  | deleteConnection id =>
    refine step_of_ok Flow.Regular h ?_
    intro f hok
    obtain rfl := Except.ok.inj hok
    exact h.deleteConnection id

/-- A run keeps a flow regular, when the ports that it mints have ids of their own. -/
theorem run_regular (h : e.flow.Regular) {edits : List Edit} (hfresh : e.MintsFresh edits) :
    (e.run edits).flow.Regular := by
  induction edits generalizing e with
  | nil => exact h
  | cons edit rest ih =>
    obtain ⟨⟨hnodup, hnew⟩, hrest⟩ := hfresh
    exact ih (step_regular h edit hnodup hnew) hrest

theorem Start.regular (h : e.Start) : e.flow.Regular := by
  obtain ⟨hnodes, hwires⟩ := h.empty
  constructor <;> simp [hnodes, hwires, portIdsOf]

end Editing

end FlowScript
