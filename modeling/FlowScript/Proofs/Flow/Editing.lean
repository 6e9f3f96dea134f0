import FlowScript.Proofs.Flow.Validity
import FlowScript.Proofs.Flow.Recoding
import Mathlib.Data.List.Flatten

/-!
# Editing keeps flows valid

A run of edits from an empty flow, where a refused edit leaves the flow as it was. If the ids and the
suffixes that are drawn during the run differ, the flow has no structural issues at its end.

## Main definitions

- `Edit`, `Editing.step`, `Editing.run` — edits with any arguments, one after the other
- `Editing.ids`, `Editing.suffixes` — what a run draws
- `Face` — what others see of a node: its id and the ids of its ports
- `Flow.Sound` — the invariant of editing

## Main results

- `Editing.step_sound` — one edit keeps a flow sound
- `Editing.run_sound` — a run keeps a flow sound
- `run_has_no_issues` — a flow that was edited from an empty one is valid
-/

namespace FlowScript

/-- An edit with its arguments. -/
inductive Edit where
  | addNode (kind : NodeKind) (name : String) (position : Position) (options : NodeOptions)
  | updateCode (nodeId code : String)
  | renamePort (nodeId portId name : String)
  | moveNode (nodeId : String) (position : Position)
  | deleteNode (nodeId : String)
  | addConnection (c : Connection)
  | deleteConnection (id : String)

/-- The outcome of an edit, and the supply after it. -/
def Edit.apply (f : Flow) (s : Supply) : Edit → Except EditError Flow × Supply
  | addNode kind name position options =>
    let (made, s) := f.addNode kind name position options s
    (made.map Prod.fst, s)
  | updateCode nodeId code => f.updateCode nodeId code s
  | renamePort nodeId portId name => (f.renamePort nodeId portId name, s)
  | moveNode nodeId position => (f.moveNode nodeId position, s)
  | deleteNode nodeId => (f.deleteNode nodeId, s)
  | addConnection c =>
    let (made, s) := f.addConnection c s
    (made.map Prod.fst, s)
  | deleteConnection id => (.ok (f.deleteConnection id), s)

/-- A flow that is edited and the supply its ids come from. -/
structure Editing where
  flow : Flow
  supply : Supply

namespace Editing

/-- One edit. A refused edit leaves the flow as it was. -/
def step (e : Editing) (edit : Edit) : Editing :=
  match edit.apply e.flow e.supply with
  | (.ok f, s) => ⟨f, s⟩
  | (.error _, s) => ⟨e.flow, s⟩

/-- Edits one after the other. -/
def run (e : Editing) (edits : List Edit) : Editing :=
  edits.foldl step e

/-- The ids that an edit draws: a new node draws one, also when its kind is refused, and so does a
new connection without an id. -/
def drawnIds (e : Editing) : Edit → List String
  | .addNode .. => [(e.supply.nextId "node").1]
  | .addConnection c =>
    if (e.step (.addConnection c)).supply.drawn = e.supply.drawn then []
    else [(e.supply.nextId "conn").1]
  | _ => []

/-- The port suffixes that an edit draws: those of a new node behind its id, and those of the ports
that new code brings. -/
def drawnSuffixes (e : Editing) (edit : Edit) : List String :=
  let drawn := (e.step edit).supply.drawn - e.supply.drawn
  match edit with
  | .addNode .. => (e.supply.nextId "node").2.shorts 6 (drawn - 1)
  | .updateCode .. => e.supply.shorts 6 drawn
  | _ => []

/-- The ids that are drawn during a run. -/
def ids (e : Editing) : List Edit → List String
  | [] => []
  | edit :: rest => e.drawnIds edit ++ (e.step edit).ids rest

/-- The port suffixes that are drawn during a run. -/
def suffixes (e : Editing) : List Edit → List String
  | [] => []
  | edit :: rest => e.drawnSuffixes edit ++ (e.step edit).suffixes rest

end Editing

/-! ## The invariant -/

/-- What others see of a node. -/
structure Face where
  id : String
  inputs : List String
  outputs : List String

def Node.face (n : Node) : Face :=
  ⟨n.id, n.inputPorts.map (·.id), n.outputPorts.map (·.id)⟩

def Face.ports (n : Face) : List String :=
  n.inputs ++ n.outputs

theorem Node.face_ports (n : Node) : n.face.ports = n.ports.map (·.id) := by
  rw [Node.ports, List.map_append]
  rfl

/-- Nodes are told apart by minted ids and ports by minted suffixes, and wires lead from outputs to
inputs, one to each. -/
structure Wired (ids suffixes : List String) (nodes : List Face) (wires : List Connection) :
    Prop where
  nodes_nodup : (nodes.map (·.id)).Nodup
  nodes_minted : ∀ n ∈ nodes, n.id ∈ ids ∧ IsWord n.id
  ports_nodup : (nodes.flatMap Face.ports).Nodup
  ports_minted : ∀ id ∈ nodes.flatMap Face.ports, suffixOf id ∈ suffixes
  sources : ∀ c ∈ wires, ∃ n ∈ nodes, n.id = c.sourceNode ∧ c.sourcePort ∈ n.outputs
  targets : ∀ c ∈ wires, ∃ n ∈ nodes, n.id = c.targetNode ∧ c.targetPort ∈ n.inputs
  inputs_nodup : (wires.map (fun c => (c.targetNode, c.targetPort))).Nodup

/-- The invariant of editing, when the given ids and suffixes were drawn. -/
structure Flow.Sound (ids suffixes : List String) (f : Flow) : Prop where
  fits : ∀ n ∈ f.liveNodes, n.Fits
  wired : Wired ids suffixes (f.liveNodes.map Node.face) f.liveConnections

namespace Wired

variable {ids suffixes : List String} {nodes : List Face} {wires wires' : List Connection}

/-- More may have been drawn than is in use. -/
theorem mono (h : Wired ids suffixes nodes wires) {ids' suffixes' : List String}
    (hids : ids ⊆ ids') (hsuffixes : suffixes ⊆ suffixes') : Wired ids' suffixes' nodes wires :=
  { h with
    nodes_minted := fun n hn => ⟨hids (h.nodes_minted n hn).1, (h.nodes_minted n hn).2⟩
    ports_minted := fun id hid => hsuffixes (h.ports_minted id hid) }

theorem sublist (h : Wired ids suffixes nodes wires) (hsub : wires'.Sublist wires) :
    Wired ids suffixes nodes wires' :=
  { h with
    sources := fun c hc => h.sources c (hsub.subset hc)
    targets := fun c hc => h.targets c (hsub.subset hc)
    inputs_nodup := h.inputs_nodup.sublist (hsub.map _) }

/-- A new node has an id and suffixes that were not drawn before. -/
theorem addNode (h : Wired ids suffixes nodes wires) {n : Face} (hid : n.id ∉ ids)
    (hword : IsWord n.id) (hports : (suffixes ++ n.ports.map suffixOf).Nodup) :
    Wired (ids ++ [n.id]) (suffixes ++ n.ports.map suffixOf) (nodes ++ [n]) wires where
  nodes_nodup := by
    rw [List.map_append, List.map_singleton, ← List.concat_eq_append]
    refine h.nodes_nodup.concat ?_
    intro hmem
    obtain ⟨m, hm, hsame⟩ := List.mem_map.mp hmem
    exact hid (hsame ▸ (h.nodes_minted m hm).1)
  nodes_minted := by
    intro m hm
    rcases List.mem_append.mp hm with hm | hm
    · exact ⟨List.mem_append_left _ (h.nodes_minted m hm).1, (h.nodes_minted m hm).2⟩
    · obtain rfl := List.mem_singleton.mp hm
      exact ⟨List.mem_append_right _ List.mem_cons_self, hword⟩
  ports_nodup := by
    obtain ⟨-, hnew, hdisjoint⟩ := List.nodup_append.mp hports
    rw [List.flatMap_append, List.flatMap_singleton, List.nodup_append]
    refine ⟨h.ports_nodup, hnew.of_map, ?_⟩
    rintro id hid id' hid' rfl
    exact hdisjoint _ (h.ports_minted id hid) _ (List.mem_map_of_mem hid') rfl
  ports_minted := by
    intro id hid
    rw [List.flatMap_append, List.flatMap_singleton] at hid
    rcases List.mem_append.mp hid with hid | hid
    · exact List.mem_append_left _ (h.ports_minted id hid)
    · exact List.mem_append_right _ (List.mem_map_of_mem hid)
  sources := by
    intro c hc
    obtain ⟨m, hm, hsource⟩ := h.sources c hc
    exact ⟨m, List.mem_append_left _ hm, hsource⟩
  targets := by
    intro c hc
    obtain ⟨m, hm, htarget⟩ := h.targets c hc
    exact ⟨m, List.mem_append_left _ hm, htarget⟩
  inputs_nodup := h.inputs_nodup

/-- A node may go with the wires that touch it. -/
theorem deleteNode (h : Wired ids suffixes nodes wires) (id : String) :
    Wired ids suffixes (nodes.filter (fun n => n.id != id))
      (wires.filter (fun c => c.sourceNode != id && c.targetNode != id)) where
  nodes_nodup := h.nodes_nodup.sublist (List.filter_sublist.map _)
  nodes_minted := fun n hn => h.nodes_minted n (List.mem_filter.mp hn).1
  ports_nodup := h.ports_nodup.sublist (List.filter_sublist.flatMap _)
  ports_minted := by
    intro p hp
    exact h.ports_minted p ((List.filter_sublist.flatMap _).subset hp)
  sources := by
    intro c hc
    obtain ⟨hc, htouch⟩ := List.mem_filter.mp hc
    obtain ⟨n, hn, hid, hport⟩ := h.sources c hc
    simp only [Bool.and_eq_true, bne_iff_ne] at htouch
    exact ⟨n, List.mem_filter.mpr ⟨hn, by rw [bne_iff_ne, hid]; exact htouch.1⟩, hid, hport⟩
  targets := by
    intro c hc
    obtain ⟨hc, htouch⟩ := List.mem_filter.mp hc
    obtain ⟨n, hn, hid, hport⟩ := h.targets c hc
    simp only [Bool.and_eq_true, bne_iff_ne] at htouch
    exact ⟨n, List.mem_filter.mpr ⟨hn, by rw [bne_iff_ne, hid]; exact htouch.2⟩, hid, hport⟩
  inputs_nodup := h.inputs_nodup.sublist (List.filter_sublist.map _)

/-- A wire may be added from an output to an input that no wire feeds. -/
theorem addWire (h : Wired ids suffixes nodes wires) {c : Connection}
    (hsource : ∃ n ∈ nodes, n.id = c.sourceNode ∧ c.sourcePort ∈ n.outputs)
    (htarget : ∃ n ∈ nodes, n.id = c.targetNode ∧ c.targetPort ∈ n.inputs)
    (hfree : ∀ d ∈ wires, ¬ (d.targetNode = c.targetNode ∧ d.targetPort = c.targetPort)) :
    Wired ids suffixes nodes (wires ++ [c]) :=
  { h with
    sources := by
      intro d hd
      rcases List.mem_append.mp hd with hd | hd
      · exact h.sources d hd
      · exact List.mem_singleton.mp hd ▸ hsource
    targets := by
      intro d hd
      rcases List.mem_append.mp hd with hd | hd
      · exact h.targets d hd
      · exact List.mem_singleton.mp hd ▸ htarget
    inputs_nodup := by
      rw [List.map_append, List.map_singleton, ← List.concat_eq_append]
      refine h.inputs_nodup.concat ?_
      intro hmem
      obtain ⟨d, hd, hsame⟩ := List.mem_map.mp hmem
      exact hfree d hd (Prod.mk.inj hsame) }

/-- A node may change its ports: it keeps some of them, the others have suffixes that were not drawn
before, and only wires whose ports are there stay. -/
theorem replace {before after : List Face} {n n' : Face} {new : List String}
    (h : Wired ids suffixes (before ++ n :: after) wires) (hid : n'.id = n.id)
    (hnodup : n'.ports.Nodup) (hports : ∀ p ∈ n'.ports, p ∈ n.ports ∨ suffixOf p ∈ new)
    (hnew : ∀ suffix ∈ new, suffix ∉ suffixes) (hsub : wires'.Sublist wires)
    (hsources : ∀ c ∈ wires', c.sourceNode = n.id → c.sourcePort ∈ n'.outputs)
    (htargets : ∀ c ∈ wires', c.targetNode = n.id → c.targetPort ∈ n'.inputs) :
    Wired ids (suffixes ++ new) (before ++ n' :: after) wires' := by
  have hold : ∀ id ∈ before.flatMap Face.ports ++ (n.ports ++ after.flatMap Face.ports),
      suffixOf id ∈ suffixes := by simpa using h.ports_minted
  have hother : ∀ m ∈ before ++ n :: after, m.id ≠ n.id → m ∈ before ++ n' :: after := by
    intro m hm hne
    simp only [List.mem_append, List.mem_cons] at hm ⊢
    rcases hm with hm | rfl | hm
    · exact Or.inl hm
    · exact absurd rfl hne
    · exact Or.inr (Or.inr hm)
  refine ⟨?_, ?_, ?_, ?_, ?_, ?_, h.inputs_nodup.sublist (hsub.map _)⟩
  · simpa [hid] using h.nodes_nodup
  · intro m hm
    simp only [List.mem_append, List.mem_cons] at hm
    rcases hm with hm | rfl | hm
    · exact h.nodes_minted m (by simp [hm])
    · rw [hid]
      exact h.nodes_minted n (by simp)
    · exact h.nodes_minted m (by simp [hm])
  · have hports_nodup := h.ports_nodup
    rw [List.flatMap_append, List.flatMap_cons] at hports_nodup ⊢
    -- a port of the changed node is one of its old ports or minted, so no other node has it
    exact nodup_replaced hports_nodup hnodup (fun id hid =>
      (hports id hid).imp_right (fun hmint hmem => hnew _ hmint (hold id hmem)))
  · intro id hmem
    rw [List.flatMap_append, List.flatMap_cons, List.mem_append, List.mem_append] at hmem
    rcases hmem with hmem | hmem | hmem
    · exact List.mem_append_left _ (hold id (List.mem_append_left _ hmem))
    · rcases hports id hmem with hkept | hmint
      · exact List.mem_append_left _ (hold id (by simp [hkept]))
      · exact List.mem_append_right _ hmint
    · exact List.mem_append_left _ (hold id (by simp only [List.mem_append]; tauto))
  · intro c hc
    obtain ⟨m, hm, hmid, hport⟩ := h.sources c (hsub.subset hc)
    by_cases hn : c.sourceNode = n.id
    · exact ⟨n', by simp, hid.trans hn.symm, hsources c hc hn⟩
    · exact ⟨m, hother m hm (by rwa [hmid]), hmid, hport⟩
  · intro c hc
    obtain ⟨m, hm, hmid, hport⟩ := h.targets c (hsub.subset hc)
    by_cases hn : c.targetNode = n.id
    · exact ⟨n', by simp, hid.trans hn.symm, htargets c hc hn⟩
    · exact ⟨m, hother m hm (by rwa [hmid]), hmid, hport⟩

end Wired

/-! ## Nodes in their flow -/

theorem Node.hasInput_iff {n : Node} {port : String} :
    n.hasInput port = true ↔ port ∈ n.face.inputs := by
  simp [Node.hasInput, Node.face]

theorem Node.hasOutput_iff {n : Node} {port : String} :
    n.hasOutput port = true ↔ port ∈ n.face.outputs := by
  simp [Node.hasOutput, Node.face]

theorem Node.face_settled (n : Node) : n.settled.face = n.face := by
  simp [Node.face, Node.settled, Node.inputPorts, Node.outputPorts, List.filterMap_map]

theorem Node.Fits.settled {n : Node} (h : n.Fits) : n.settled.Fits := by
  refine ⟨h.1, ?_⟩
  have hfit := h.2
  unfold Node.carriesFitting at hfit ⊢
  cases hp : n.payload with
  | none => simp [Node.settled, hp]
  | some p =>
    cases hk : n.kind <;> cases p <;>
      simp_all [Node.settled, Payload.settled, Node.function?, Node.file?, Node.subFlow?,
        Node.output?]

namespace Flow

variable {ids suffixes : List String} {f : Flow}

theorem liveNodes_settled (f : Flow) : f.settled.liveNodes = f.liveNodes.map Node.settled := by
  simp [Flow.settled, Flow.liveNodes, List.filterMap_map]

theorem liveConnections_settled (f : Flow) : f.settled.liveConnections = f.liveConnections := by
  simp [Flow.settled, Flow.liveConnections, List.filterMap_map]

theorem faces_settled (f : Flow) :
    f.settled.liveNodes.map Node.face = f.liveNodes.map Node.face := by
  rw [liveNodes_settled, List.map_map]
  exact List.map_congr_left (fun n _ => n.face_settled)

theorem Sound.settled (h : Sound ids suffixes f) : Sound ids suffixes f.settled := by
  refine ⟨?_, ?_⟩
  · intro n hn
    rw [liveNodes_settled] at hn
    obtain ⟨m, hm, rfl⟩ := List.mem_map.mp hn
    exact (h.fits m hm).settled
  · rw [faces_settled, liveConnections_settled]
    exact h.wired

theorem node?_spec {id : String} {n : Node} (h : f.node? id = some n) :
    n ∈ f.liveNodes ∧ n.id = id :=
  ⟨List.mem_of_find?_eq_some h, by simpa using List.find?_some h⟩

/-- A change of the first node with an id changes that node and no other. -/
theorem updateFirst_split {id : String} {n : Node} (change : Node → Node)
    (h : f.node? id = some n) :
    ∃ before after, f.liveNodes = before ++ n :: after ∧
      (updateFirst id change f.nodes).filterMap (fun n => n) = before ++ change n :: after := by
  unfold Flow.node? Flow.liveNodes at h
  unfold Flow.liveNodes
  generalize f.nodes = nodes at h ⊢
  induction nodes with
  | nil => cases h
  | cons entry rest ih =>
    cases entry with
    | none =>
      -- a missing node is neither found nor changed
      simpa [updateFirst] using ih (by simpa using h)
    | some m =>
      have hcons : (some m :: rest).filterMap (fun n => n) = m :: rest.filterMap (fun n => n) := rfl
      rw [hcons, List.find?_cons] at h
      by_cases hm : m.id = id
      · rw [beq_iff_eq.mpr hm] at h
        obtain rfl := Option.some.inj h
        exact ⟨[], rest.filterMap (fun n => n), by simp, by simp [updateFirst, hm]⟩
      · rw [beq_eq_false_iff_ne.mpr hm] at h
        obtain ⟨before, after, hnodes, hchanged⟩ := ih h
        refine ⟨m :: before, after, by simp [hnodes], ?_⟩
        simp [updateFirst, hm, hchanged]

/-- A change that others do not see keeps a flow sound. -/
theorem Sound.updateFirst (h : Sound ids suffixes f) {id : String} {n : Node}
    (hn : f.node? id = some n) {change : Node → Node} (hface : (change n).face = n.face)
    (hfits : n.Fits → (change n).Fits) :
    Sound ids suffixes { f with nodes := updateFirst id change f.nodes } := by
  obtain ⟨before, after, hnodes, hchanged⟩ := updateFirst_split change hn
  have hlive : Flow.liveNodes { f with nodes := Flow.updateFirst id change f.nodes } =
      before ++ change n :: after := hchanged
  refine ⟨?_, ?_⟩
  · intro m hm
    have hfit := h.fits
    rw [hnodes] at hfit
    rw [hlive] at hm
    simp only [List.mem_append, List.mem_cons] at hm
    rcases hm with hm | rfl | hm
    · exact hfit m (by simp [hm])
    · exact hfits (hfit n (by simp))
    · exact hfit m (by simp [hm])
  · have hwired := h.wired
    rw [hnodes, List.map_append, List.map_cons] at hwired
    rw [hlive, List.map_append, List.map_cons, hface]
    exact hwired

/-! ## One edit -/

theorem Sound.mono (h : Sound ids suffixes f) {ids' suffixes' : List String} (hids : ids ⊆ ids')
    (hsuffixes : suffixes ⊆ suffixes') : Sound ids' suffixes' f :=
  ⟨h.fits, h.wired.mono hids hsuffixes⟩

theorem Sound.moveNode (h : Sound ids suffixes f) {nodeId : String} {position : Position}
    {f' : Flow} (hok : f.moveNode nodeId position = .ok f') : Sound ids suffixes f' := by
  unfold Flow.moveNode at hok
  dsimp only at hok
  split at hok
  · next hhas =>
    obtain ⟨n, hn⟩ := Option.isSome_iff_exists.mp hhas
    obtain rfl := Except.ok.inj hok
    exact h.settled.updateFirst hn rfl (fun hfits => hfits)
  · cases hok

theorem renameIn_ids (id name : String) (ports : List (Option Port)) :
    ((renameIn id name ports).filterMap (fun p => p)).map (·.id) =
      (ports.filterMap (fun p => p)).map (·.id) := by
  induction ports with
  | nil => rfl
  | cons entry rest ih =>
    cases entry with
    | none => simpa [renameIn] using ih
    | some p =>
      by_cases hp : p.id = id
      · simp [renameIn, hp, renamed]
      · simpa [renameIn, hp] using ih

theorem Sound.renamePort (h : Sound ids suffixes f) {nodeId portId name : String} {f' : Flow}
    (hok : f.renamePort nodeId portId name = .ok f') : Sound ids suffixes f' := by
  unfold Flow.renamePort at hok
  dsimp only at hok
  split at hok
  · cases hok
  · next n hn =>
    split at hok
    · obtain rfl := Except.ok.inj hok
      refine h.settled.updateFirst hn ?_ (fun hfits => hfits)
      simp [Node.face, Node.inputPorts, Node.outputPorts, renameIn_ids]
    · split at hok
      · obtain rfl := Except.ok.inj hok
        refine h.settled.updateFirst hn ?_ (fun hfits => hfits)
        simp [Node.face, Node.inputPorts, Node.outputPorts, renameIn_ids]
      · cases hok

theorem Sound.deleteNode (h : Sound ids suffixes f) {nodeId : String} {f' : Flow}
    (hok : f.deleteNode nodeId = .ok f') : Sound ids suffixes f' := by
  unfold Flow.deleteNode at hok
  split at hok
  · obtain rfl := Except.ok.inj hok
    have hs := h.settled
    refine ⟨?_, ?_⟩
    · intro n hn
      have hmem : n ∈ f.settled.liveNodes.filter (fun n => n.id != nodeId) := by
        simpa [Flow.liveNodes, List.filterMap_map] using hn
      exact hs.fits n (List.mem_filter.mp hmem).1
    · have hwired := hs.wired.deleteNode nodeId
      have hface : ((fun n : Face => n.id != nodeId) ∘ Node.face) = fun n => n.id != nodeId := rfl
      rw [List.filter_map, hface] at hwired
      simpa [Flow.liveNodes, Flow.liveConnections, List.filterMap_map] using hwired
  · cases hok

theorem Sound.deleteConnection (h : Sound ids suffixes f) (id : String) :
    Sound ids suffixes (f.deleteConnection id) := by
  have hs := h.settled
  have hwires : (f.deleteConnection id).liveConnections =
      f.settled.liveConnections.filter (fun c => c.id != id) := by
    simp [Flow.deleteConnection, Flow.liveConnections, List.filterMap_map]
  refine ⟨hs.fits, ?_⟩
  rw [hwires]
  exact hs.wired.sublist List.filter_sublist

/-- When a connection is added: its ports are there and nothing feeds its input yet. -/
theorem addConnection_cases {c c' : Connection} {s : Supply} {f' : Flow}
    (hok : (f.addConnection c s).1 = .ok (f', c')) :
    ∃ source target, f.node? c.sourceNode = some source ∧ f.node? c.targetNode = some target ∧
      source.hasOutput c.sourcePort = true ∧ target.hasInput c.targetPort = true ∧
      f.incoming? c.targetNode c.targetPort = none ∧ (∃ id, c' = { c with id := id }) ∧
      f' = { f.settled with connections := f.settled.connections ++ [some c'] } := by
  unfold Flow.addConnection at hok
  cases hsource : f.node? c.sourceNode with
  | none => simp [hsource] at hok
  | some source =>
    cases htarget : f.node? c.targetNode with
    | none => simp [hsource, htarget] at hok
    | some target =>
      simp only [hsource, htarget] at hok
      split at hok
      · cases hok
      · next hout =>
        split at hok
        · cases hok
        · next hin =>
          cases hfree : f.incoming? c.targetNode c.targetPort with
          | some existing => simp [hfree] at hok
          | none =>
            simp only [hfree] at hok
            obtain ⟨rfl, rfl⟩ := Prod.mk.inj (Except.ok.inj hok)
            exact ⟨source, target, rfl, rfl, by simpa using hout, by simpa using hin, rfl,
              ⟨_, rfl⟩, rfl⟩

theorem Sound.addConnection (h : Sound ids suffixes f) {c c' : Connection} {s : Supply}
    {f' : Flow} (hok : (f.addConnection c s).1 = .ok (f', c')) : Sound ids suffixes f' := by
  obtain ⟨source, target, hsource, htarget, hout, hin, hfree, ⟨id, rfl⟩, rfl⟩ :=
    addConnection_cases hok
  obtain ⟨hs, hsid⟩ := node?_spec hsource
  obtain ⟨ht, htid⟩ := node?_spec htarget
  have hwired := h.wired.addWire (c := { c with id := id })
    ⟨source.face, List.mem_map_of_mem hs, hsid, Node.hasOutput_iff.mp hout⟩
    ⟨target.face, List.mem_map_of_mem ht, htid, Node.hasInput_iff.mp hin⟩ (by
      intro d hd hsame
      have := List.find?_eq_none.mp hfree d hd
      simp [hsame.1, hsame.2] at this)
  refine ⟨h.settled.fits, ?_⟩
  have hwires : Flow.liveConnections { f.settled with
      connections := f.settled.connections ++ [some { c with id := id }] } =
      f.liveConnections ++ [{ c with id := id }] := by
    rw [← liveConnections_settled f]
    simp [Flow.liveConnections, List.filterMap_append]
  rw [hwires]
  exact faces_settled f ▸ hwired

/-- A node with new ports for the given names. -/
def builtNode (id : String) (kind : NodeKind) (name : String) (position : Position)
    (ins outs : List String) (payload : Payload) (s : Supply) : Node × Supply :=
  let made := newPorts id .input ins s
  let made' := newPorts id .output outs made.2
  ({ id := id, kind := kind, name := name, position := position
     inputs := made.1.map some, outputs := made'.1.map some, payload := some payload }, made'.2)

/-- A new node draws one suffix for each name. -/
theorem builtNode_spec (id : String) (kind : NodeKind) (name : String) (position : Position)
    (ins outs : List String) (payload : Payload) (s : Supply) :
    (builtNode id kind name position ins outs payload s).2 = s.after (ins.length + outs.length) ∧
      (builtNode id kind name position ins outs payload s).1.face.ports.map suffixOf =
        s.shorts 6 (ins.length + outs.length) := by
  obtain ⟨hin, hsupply⟩ := newPortsFrom_spec id .input 0 ins s
  obtain ⟨hout, hsupply'⟩ := newPortsFrom_spec id .output 0 outs (s.after ins.length)
  refine ⟨?_, ?_⟩
  · simp only [builtNode, newPorts, hsupply, hsupply', Supply.after_after]
  · simp only [builtNode, newPorts, Node.face, Face.ports, Node.inputPorts, Node.outputPorts,
      List.filterMap_map, Function.comp_def, List.filterMap_some, List.map_append, List.map_map,
      hsupply, hin, hout, Supply.shorts_add]

/-- A new node of a supported kind is built from what its kind calls for; of another kind it is
refused, and only its id is drawn. -/
theorem newNode_cases (kind : NodeKind) (name : String) (position : Position)
    (options : NodeOptions) (s : Supply) :
    (∃ ins outs payload,
      Node.new kind name position options s =
        (.ok (builtNode (s.nextId "node").1 kind name position ins outs payload (s.after 1)).1,
          (builtNode (s.nextId "node").1 kind name position ins outs payload (s.after 1)).2) ∧
      (∀ n : Node, n.kind = kind → n.payload = some payload → n.Fits) ∧
      payload.settled = payload ∧ ∀ name ∈ ins ++ outs, name ≠ "") ∨
    ∃ error, Node.new kind name position options s = (.error error, s.after 1) := by
  cases kind with
  | function =>
    refine Or.inl ⟨_, _, _, rfl, ?_, rfl, ?_⟩
    · intro n hk hp
      simp [Node.Fits, NodeKind.isSupported, Node.carriesFitting, Node.function?, hk, hp]
    · obtain ⟨hins, houts⟩ := Signature.named
        (if options.code.isEmpty then defaultCode else options.code)
      exact fun name hname => (List.mem_append.mp hname).elim (hins name) (houts name)
  | csvInput =>
    refine Or.inl ⟨[], ["data"], .file { description := options.description }, rfl, ?_, rfl,
      by simp⟩
    intro n hk hp
    simp [Node.Fits, NodeKind.isSupported, Node.carriesFitting, Node.file?, hk, hp]
  | excelInput =>
    refine Or.inl ⟨[], ["data"], .file { description := options.description }, rfl, ?_, rfl,
      by simp⟩
    intro n hk hp
    simp [Node.Fits, NodeKind.isSupported, Node.carriesFitting, Node.file?, hk, hp]
  | subFlow =>
    refine Or.inl ⟨["input"], ["output"], .subFlow ⟨options.subFlowId, options.description⟩, rfl,
      ?_, rfl, by simp⟩
    intro n hk hp
    simp [Node.Fits, NodeKind.isSupported, Node.carriesFitting, Node.subFlow?, hk, hp]
  | output =>
    refine Or.inl ⟨["result"], [],
      .output { valueKind := "json", description := options.description }, rfl, ?_, rfl, by simp⟩
    intro n hk hp
    simp [Node.Fits, NodeKind.isSupported, Node.carriesFitting, Node.output?, hk, hp]
  | other kind => exact Or.inr ⟨_, rfl⟩

theorem Sound.withNode (h : Sound ids suffixes f) {n : Node} (hid : n.id ∉ ids)
    (hword : IsWord n.id) (hfits : n.Fits)
    (hports : (suffixes ++ n.face.ports.map suffixOf).Nodup) :
    Sound (ids ++ [n.id]) (suffixes ++ n.face.ports.map suffixOf) (f.withNode n) := by
  have hs := h.settled
  have hnodes : (f.withNode n).liveNodes = f.settled.liveNodes ++ [n] := by
    simp [Flow.withNode, Flow.liveNodes, List.filterMap_append]
  refine ⟨?_, ?_⟩
  · intro m hm
    rw [hnodes] at hm
    rcases List.mem_append.mp hm with hm | hm
    · exact hs.fits m hm
    · exact List.mem_singleton.mp hm ▸ hfits
  · rw [hnodes, List.map_append]
    exact hs.wired.addNode hid hword hports

/-- A wire that survives at a node leads to ports that the node has. -/
theorem ports_of_survives {n : Node} {c : Connection} (h : survives n c = true) :
    (c.targetNode = n.id → c.targetPort ∈ n.face.inputs) ∧
      (c.sourceNode = n.id → c.sourcePort ∈ n.face.outputs) := by
  simp only [survives, Bool.and_eq_true, Bool.or_eq_true, bne_iff_ne, Node.hasInput_iff,
    Node.hasOutput_iff] at h
  exact ⟨fun ht => h.1.resolve_left (fun hne => hne ht),
    fun hs => h.2.resolve_left (fun hne => hne hs)⟩

/-- New code for a function node: what its new ports have behind their ids was not drawn before. -/
theorem Sound.updateCode (h : Sound ids suffixes f) {nodeId : String} {n : Node}
    (hn : f.node? nodeId = some n) (hkind : n.kind = .function) (data : FunctionData)
    {code : String} {s : Supply} (hnew : (suffixes ++ (n.minted code s).map suffixOf).Nodup) :
    Sound ids (suffixes ++ (n.minted code s).map suffixOf) { f with
      nodes := Flow.updateFirst nodeId (fun _ => n.recoded data code s) f.nodes
      connections := (f.liveConnections.filter (survives (n.recoded data code s))).map some } := by
  obtain ⟨before, after, hnodes, hchanged⟩ := updateFirst_split (fun _ => n.recoded data code s) hn
  have hwired := h.wired
  rw [hnodes, List.map_append, List.map_cons] at hwired
  have hfit := h.fits
  rw [hnodes] at hfit
  obtain ⟨-, hminted, hapart⟩ := List.nodup_append.mp hnew
  have hports := hwired.ports_nodup
  rw [List.flatMap_append, List.flatMap_cons, n.face_ports] at hports
  have hfresh : ∀ p ∈ n.ports, p.id ∉ n.minted code s := by
    intro p hp hmem
    have hid : p.id ∈ n.face.ports := n.face_ports ▸ List.mem_map_of_mem hp
    exact hapart _ (hwired.ports_minted p.id (List.mem_flatMap.mpr ⟨n.face, by simp, hid⟩)) _
      (List.mem_map_of_mem hmem) rfl
  have hids : ((n.recoded data code s).ports.map (·.id)).Nodup :=
    Node.recoded_ids_nodup (List.nodup_append.mp (List.nodup_append.mp hports).2.1).1
      hminted.of_map hfresh
  -- at the changed node only wires to ports that are still there survive
  have hsurvives : ∀ c ∈ f.liveConnections.filter (survives (n.recoded data code s)),
      (c.targetNode = n.id → c.targetPort ∈ (n.recoded data code s).face.inputs) ∧
        (c.sourceNode = n.id → c.sourcePort ∈ (n.recoded data code s).face.outputs) :=
    fun c hc => ports_of_survives (List.mem_filter.mp hc).2
  have hresult : Wired ids (suffixes ++ (n.minted code s).map suffixOf)
      (before.map Node.face ++ (n.recoded data code s).face :: after.map Node.face)
      (f.liveConnections.filter (survives (n.recoded data code s))) := by
    refine hwired.replace rfl ((n.recoded data code s).face_ports ▸ hids) ?_
      (fun suffix hs hmem => hapart _ hmem _ hs rfl) List.filter_sublist
      (fun c hc => (hsurvives c hc).2) (fun c hc => (hsurvives c hc).1)
    intro id hid
    rw [Node.face_ports] at hid ⊢
    exact (Node.recoded_id_cases hid).imp_right List.mem_map_of_mem
  have hlive : Flow.liveNodes { f with
      nodes := Flow.updateFirst nodeId (fun _ => n.recoded data code s) f.nodes
      connections := (f.liveConnections.filter (survives (n.recoded data code s))).map some } =
      before ++ n.recoded data code s :: after := hchanged
  refine ⟨?_, ?_⟩
  · intro m hm
    rw [hlive] at hm
    simp only [List.mem_append, List.mem_cons] at hm
    rcases hm with hm | rfl | hm
    · exact hfit m (by simp [hm])
    · exact Node.fits_recoded hkind data code s
    · exact hfit m (by simp [hm])
  · rw [hlive, List.map_append, List.map_cons]
    simpa [Flow.liveConnections, List.filterMap_map] using hresult

end Flow

/-! ## Runs -/

namespace Editing

variable {ids suffixes : List String} {e : Editing}

/-- What holds of a flow holds after an edit, if it holds of whatever the edit gives. -/
theorem step_of_ok (P : Flow → Prop) {edit : Edit} (h : P e.flow)
    (hok : ∀ f, (edit.apply e.flow e.supply).1 = .ok f → P f) : P (e.step edit).flow := by
  unfold step
  split
  · next f s hresult => exact hok f (by rw [hresult])
  · exact h

/-- An edit that draws nothing it keeps: whatever it gives is sound. -/
theorem step_sound_of_ok {edit : Edit} (h : e.flow.Sound ids suffixes)
    (hok : ∀ f, (edit.apply e.flow e.supply).1 = .ok f → f.Sound ids suffixes) :
    (e.step edit).flow.Sound ids suffixes :=
  step_of_ok (Flow.Sound ids suffixes) h hok

theorem addNode_sound (h : e.flow.Sound ids suffixes) (kind : NodeKind) (name : String)
    (position : Position) (options : NodeOptions)
    (hids : (ids ++ e.drawnIds (.addNode kind name position options)).Nodup)
    (hsuffixes : (suffixes ++ e.drawnSuffixes (.addNode kind name position options)).Nodup) :
    (e.step (.addNode kind name position options)).flow.Sound
      (ids ++ e.drawnIds (.addNode kind name position options))
      (suffixes ++ e.drawnSuffixes (.addNode kind name position options)) := by
  rcases Flow.newNode_cases kind name position options e.supply with
    ⟨ins, outs, payload, hnew, hfits, -, -⟩ | ⟨error, hnew⟩
  · generalize hid : (e.supply.nextId "node").1 = id at hnew
    obtain ⟨hsupply, hports⟩ :=
      Flow.builtNode_spec id kind name position ins outs payload (e.supply.after 1)
    have hstep : e.step (.addNode kind name position options) =
        ⟨e.flow.withNode (Flow.builtNode id kind name position ins outs payload
          (e.supply.after 1)).1, (e.supply.after 1).after (ins.length + outs.length)⟩ := by
      simp only [step, Edit.apply, Flow.addNode, hnew, Except.map, hsupply]
    -- the first token is the id of the node, the others are the suffixes of its ports
    have hdrawn : e.drawnSuffixes (.addNode kind name position options) =
        (e.supply.after 1).shorts 6 (ins.length + outs.length) := by
      have hcount : e.supply.drawn + (1 + (ins.length + outs.length)) - e.supply.drawn - 1 =
          ins.length + outs.length := by omega
      simp only [drawnSuffixes, hstep, Supply.after_after, Supply.after_drawn, Supply.nextId_snd,
        hcount]
    have hdrawnId : e.drawnIds (.addNode kind name position options) = [id] := by
      simp only [drawnIds, hid]
    rw [hdrawnId] at hids ⊢
    rw [hdrawn, ← hports] at hsuffixes ⊢
    rw [hstep]
    refine h.withNode ?_ ?_ (hfits _ rfl rfl) hsuffixes
    · intro hmem
      exact (List.nodup_append.mp hids).2.2 _ hmem _ List.mem_cons_self rfl
    · rw [← hid]
      exact Supply.isWord_nextId (by simp [IsWord, isWordChar])
  · -- a refused node has drawn an id that nothing uses
    have hstep : (e.step (.addNode kind name position options)).flow = e.flow := by
      simp only [step, Edit.apply, Flow.addNode, hnew, Except.map]
    rw [hstep]
    exact h.mono (List.subset_append_left _ _) (List.subset_append_left _ _)

theorem updateCode_sound (h : e.flow.Sound ids suffixes) (nodeId code : String)
    (hsuffixes : (suffixes ++ e.drawnSuffixes (.updateCode nodeId code)).Nodup) :
    (e.step (.updateCode nodeId code)).flow.Sound ids
      (suffixes ++ e.drawnSuffixes (.updateCode nodeId code)) := by
  rcases Flow.function_or_refused e.flow nodeId code e.supply with
    ⟨n, data, hn, hdata, hkind⟩ | ⟨error, hrefused⟩
  · have hupdate := Flow.updateCode_of_function hn hdata hkind code e.supply
    have hdrawn : e.drawnSuffixes (.updateCode nodeId code) =
        (n.minted code e.supply).map suffixOf := by
      rw [n.minted_suffixes]
      simp only [drawnSuffixes, step, Edit.apply, hupdate, Supply.after_drawn,
        Nat.add_sub_cancel_left]
    rw [hdrawn] at hsuffixes ⊢
    simp only [step, Edit.apply, hupdate]
    exact h.settled.updateCode hn hkind data hsuffixes
  · have hstep : (e.step (.updateCode nodeId code)).flow = e.flow := by
      simp only [step, Edit.apply, hrefused]
    rw [hstep]
    exact h.mono (List.Subset.refl _) (List.subset_append_left _ _)

/-- One edit keeps a flow sound, when what it draws was not drawn before. -/
theorem step_sound (h : e.flow.Sound ids suffixes) (edit : Edit)
    (hids : (ids ++ e.drawnIds edit).Nodup) (hsuffixes : (suffixes ++ e.drawnSuffixes edit).Nodup) :
    (e.step edit).flow.Sound (ids ++ e.drawnIds edit) (suffixes ++ e.drawnSuffixes edit) := by
  have hkeep : (e.step edit).flow.Sound ids suffixes →
      (e.step edit).flow.Sound (ids ++ e.drawnIds edit) (suffixes ++ e.drawnSuffixes edit) :=
    fun hsound => hsound.mono (List.subset_append_left _ _) (List.subset_append_left _ _)
  cases edit with
  | addNode kind name position options =>
    exact addNode_sound h kind name position options hids hsuffixes
  | updateCode nodeId code =>
    exact (updateCode_sound h nodeId code hsuffixes).mono (List.subset_append_left _ _)
      (List.Subset.refl _)
  | renamePort nodeId portId name =>
    exact hkeep (step_sound_of_ok h (fun f hok => h.renamePort hok))
  | moveNode nodeId position => exact hkeep (step_sound_of_ok h (fun f hok => h.moveNode hok))
  | deleteNode nodeId => exact hkeep (step_sound_of_ok h (fun f hok => h.deleteNode hok))
  | addConnection c =>
    refine hkeep (step_sound_of_ok h ?_)
    intro f hok
    simp only [Edit.apply] at hok
    cases hmade : (e.flow.addConnection c e.supply).1 with
    | error error => simp [hmade, Except.map] at hok
    | ok made =>
      obtain ⟨f', c'⟩ := made
      rw [hmade] at hok
      obtain rfl : f' = f := Except.ok.inj hok
      exact h.addConnection hmade
  | deleteConnection id =>
    refine hkeep (step_sound_of_ok h ?_)
    intro f hok
    obtain rfl := Except.ok.inj hok
    exact h.deleteConnection id

/-- A run keeps a flow sound, when what it draws differs and was not drawn before. -/
theorem run_sound (h : e.flow.Sound ids suffixes) (edits : List Edit)
    (hids : (ids ++ e.ids edits).Nodup) (hsuffixes : (suffixes ++ e.suffixes edits).Nodup) :
    (e.run edits).flow.Sound (ids ++ e.ids edits) (suffixes ++ e.suffixes edits) := by
  induction edits generalizing e ids suffixes with
  | nil => simpa [run, Editing.ids, Editing.suffixes] using h
  | cons edit rest ih =>
    -- what the edit draws counts as drawn before for the rest of the run
    simp only [Editing.ids, Editing.suffixes, ← List.append_assoc] at hids hsuffixes ⊢
    refine ih (step_sound h edit ?_ ?_) hids hsuffixes
    · exact (List.nodup_append.mp hids).1
    · exact (List.nodup_append.mp hsuffixes).1

/-- Where editing starts: with a new flow, or with one that was never filled. -/
inductive Start : Editing → Prop
  | new (name createdAt : String) (s : Supply) :
      Start ⟨(Flow.new name createdAt s).1, (Flow.new name createdAt s).2⟩
  | zero (listed listed' : Bool) (s : Supply) :
      Start ⟨{ nodesListed := listed, connectionsListed := listed' }, s⟩

theorem Start.empty (h : e.Start) : e.flow.liveNodes = [] ∧ e.flow.liveConnections = [] := by
  cases h with
  | new name createdAt s => exact ⟨rfl, rfl⟩
  | zero listed listed' s => exact ⟨rfl, rfl⟩

theorem Start.sound (h : e.Start) : e.flow.Sound [] [] := by
  obtain ⟨hnodes, hwires⟩ := h.empty
  constructor
  · simp [hnodes]
  · rw [hnodes, hwires]
    constructor <;> simp

end Editing

namespace Flow.Sound

variable {ids suffixes : List String} {f : Flow}

theorem nodeIds_nodup (h : f.Sound ids suffixes) : (f.liveNodes.map (·.id)).Nodup := by
  simpa [Function.comp_def, Node.face] using h.wired.nodes_nodup

theorem node?_of_mem (h : f.Sound ids suffixes) {n : Node} (hn : n ∈ f.liveNodes) :
    f.node? n.id = some n :=
  (node?_eq_some_iff h.nodeIds_nodup).mpr ⟨hn, rfl⟩

/-- Wires to different inputs are remembered under different keys, since the ids of nodes hold no
slash. -/
theorem inputKeys_nodup (h : f.Sound ids suffixes) :
    (f.liveConnections.map Issue.inputKey).Nodup := by
  have hword : ∀ c ∈ f.liveConnections, '/' ∉ c.targetNode.toList := by
    intro c hc
    obtain ⟨n, hn, hid, -⟩ := h.wired.targets c hc
    rw [← hid]
    exact (h.wired.nodes_minted n hn).2.not_mem (by decide)
  exact Issue.inputKeys_nodup_iff.mpr ⟨h.wired.inputs_nodup,
    fun c hc d hd => Issue.input_eq_of_inputKey (hword c hc) (hword d hd)⟩

theorem source_mem (h : f.Sound ids suffixes) {c : Connection} (hc : c ∈ f.liveConnections) :
    ∃ n ∈ f.liveNodes, n.id = c.sourceNode ∧ n.hasOutput c.sourcePort = true := by
  obtain ⟨face, hface, hid, hport⟩ := h.wired.sources c hc
  obtain ⟨n, hn, rfl⟩ := List.mem_map.mp hface
  exact ⟨n, hn, hid, Node.hasOutput_iff.mpr hport⟩

theorem target_mem (h : f.Sound ids suffixes) {c : Connection} (hc : c ∈ f.liveConnections) :
    ∃ n ∈ f.liveNodes, n.id = c.targetNode ∧ n.hasInput c.targetPort = true := by
  obtain ⟨face, hface, hid, hport⟩ := h.wired.targets c hc
  obtain ⟨n, hn, rfl⟩ := List.mem_map.mp hface
  exact ⟨n, hn, hid, Node.hasInput_iff.mpr hport⟩

theorem portIds_nodup (h : f.Sound ids suffixes) : (portIdsOf f.liveNodes).Nodup := by
  have hports := h.wired.ports_nodup
  rw [List.flatMap_map] at hports
  simpa [portIdsOf, Node.ports, Node.face, Face.ports] using hports

theorem issues_eq_nil (h : f.Sound ids suffixes) : f.issues = [] := by
  refine issues_eq_nil_iff.mpr ⟨h.nodeIds_nodup, h.portIds_nodup, h.fits, ?_, h.inputKeys_nodup⟩
  intro c hc
  obtain ⟨source, hs, hsid, hout⟩ := h.source_mem hc
  obtain ⟨target, ht, htid, hin⟩ := h.target_mem hc
  exact ⟨⟨source, hsid ▸ h.node?_of_mem hs, hout⟩, target, htid ▸ h.node?_of_mem ht, hin⟩

end Flow.Sound

/-- A flow that was edited from a new or an empty one has no issues, whatever the edits were, when the
ids and the suffixes that were drawn differ: ids of nodes and of ports are given once, every
connection leads from an output port to an input port, and no input port has two connections. -/
theorem run_has_no_issues (e : Editing) (hstart : e.Start) (edits : List Edit)
    (hids : (e.ids edits).Nodup) (hsuffixes : (e.suffixes edits).Nodup) :
    (e.run edits).flow.issues = [] ∧
    ((e.run edits).flow.liveNodes.map (·.id)).Nodup ∧
    (portIdsOf (e.run edits).flow.liveNodes).Nodup ∧
    (∀ c ∈ (e.run edits).flow.liveConnections,
      (∃ n ∈ (e.run edits).flow.liveNodes, n.id = c.sourceNode ∧ n.hasOutput c.sourcePort = true) ∧
      ∃ n ∈ (e.run edits).flow.liveNodes, n.id = c.targetNode ∧ n.hasInput c.targetPort = true) ∧
    ((e.run edits).flow.liveConnections.map (fun c => (c.targetNode, c.targetPort))).Nodup := by
  have h := Editing.run_sound hstart.sound edits hids hsuffixes
  exact ⟨h.issues_eq_nil, h.nodeIds_nodup, h.portIds_nodup,
    fun c hc => ⟨h.source_mem hc, h.target_mem hc⟩, h.wired.inputs_nodup⟩

/-- A call is wired to an output node and gets new code that keeps one of its ports, and a node of an
unknown kind is refused. -/
def sampleEdits : List Edit :=
  [.addNode .function "Call" {} { code := "def f(a):\n  return a" },
    .addNode .output "Shown" {} {},
    .addConnection
      { sourceNode := "node_0000010000", sourcePort := "port_out_node_0000010000_a_000003"
        targetNode := "node_0000040000", targetPort := "port_in_node_0000040000_result_000005" },
    .updateCode "node_0000010000" "def f(b):\n  return a, b",
    .addNode (.other "chart") "Chart" {} {}]

/-- The edits draw different ids and suffixes, so what they give is valid; the wire is still there. -/
theorem sampleEdits_have_no_issues :
    (Editing.ids ⟨{}, countedSupply⟩ sampleEdits).Nodup ∧
    (Editing.suffixes ⟨{}, countedSupply⟩ sampleEdits).Nodup ∧
    (Editing.run ⟨{}, countedSupply⟩ sampleEdits).flow.liveConnections.map (·.id) =
      ["conn_0000060000"] ∧
    (Editing.run ⟨{}, countedSupply⟩ sampleEdits).flow.issues = [] := by
  have hids : (Editing.ids ⟨{}, countedSupply⟩ sampleEdits).Nodup := by decide +kernel
  have hsuffixes : (Editing.suffixes ⟨{}, countedSupply⟩ sampleEdits).Nodup := by decide +kernel
  refine ⟨hids, hsuffixes, by decide +kernel, ?_⟩
  exact (run_has_no_issues _ (.zero true true countedSupply) sampleEdits hids hsuffixes).1

end FlowScript
