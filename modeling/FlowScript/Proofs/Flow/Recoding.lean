import FlowScript.Flow.Edit
import FlowScript.Proofs.Flow.Issues
import FlowScript.Proofs.Flow.Matching
import FlowScript.Proofs.Source.Signature

/-!
# A node with new code

What becomes of the ports of one node when its code changes. A port that has its source name and its
place is either kept, and then only an empty display name changes, or it goes; and which ports are
kept can be told from the old ports and the new names alone.

## Main definitions

- `Port.PlacedAt` — a port has a source name, and says which node and side it is on
- `keptPorts` — the ports that new names keep
- `PortsFollow` — what becomes of the ports on one side of a node
- `Node.recoded` — a node with new code
- `Node.minted` — the ids of the ports that new code brings

## Main results

- `Matched.portsFor_eq` — the ports for one name: the first of the old ones, and minted ones
- `Matched.follow` — ports that are matched with new names follow them
- `Node.recoded_ids_nodup` — the ports of a node with new code have different ids
- `Flow.updateCode_of_function` — what an update makes of a function node
-/

namespace FlowScript

/-! ## Ports at their place -/

/-- A port has a source name, and says which node and side it is on. -/
structure Port.PlacedAt (p : Port) (nodeId : String) (direction : Direction) : Prop where
  named : p.sourceName ≠ ""
  node : p.nodeId = nodeId
  side : p.direction = direction

/-- The port with its source name in place of an empty display name. -/
def Port.filled (p : Port) : Port :=
  { p with name := if p.name == "" then p.sourceName else p.name }

theorem Port.filled_id (p : Port) : p.filled.id = p.id :=
  rfl

theorem Port.filled_sourceName (p : Port) : p.filled.sourceName = p.sourceName :=
  rfl

theorem Port.PlacedAt.keptFor_eq {p : Port} {nodeId : String} {direction : Direction}
    (h : p.PlacedAt nodeId direction) : p.keptFor p.sourceName nodeId direction = p.filled := by
  obtain ⟨-, rfl, rfl⟩ := h
  rfl

/-- The ports with a source name. -/
def portsFor (name : String) (ports : List Port) : List Port :=
  ports.filter (fun p => p.sourceName == name)

theorem mem_portsFor_iff {name : String} {ports : List Port} {p : Port} :
    p ∈ portsFor name ports ↔ p ∈ ports ∧ p.sourceName = name := by
  rw [portsFor, List.mem_filter, beq_iff_eq]

/-- The ports that are kept for new names: of the ports with one source name the first ones, as many
as the name comes up. -/
def keptPorts (existing : List Port) (names : List String) : List Port :=
  existing.filter (fun p =>
    ((portsFor p.sourceName existing).take (names.count p.sourceName)).contains p)

theorem mem_keptPorts_iff {existing : List Port} {names : List String} {p : Port} :
    p ∈ keptPorts existing names ↔
      p ∈ (portsFor p.sourceName existing).take (names.count p.sourceName) := by
  unfold keptPorts
  rw [List.mem_filter, List.contains_iff_mem, and_iff_right_iff_imp]
  exact fun hp => (mem_portsFor_iff.mp (List.mem_of_mem_take hp)).1

/-- What becomes of the ports on one side of a node for new names: there is one port for each name,
and of the ports for one name the first, as many as there were and are, are the old ones, except that
none of them stays without a display name. The ports that are kept have their ids, and no others
have. -/
structure PortsFollow (names : List String) (old new : List Port) : Prop where
  sourceNames : new.map (·.sourceName) = names
  first : ∀ name,
    (portsFor name new).take (min (portsFor name old).length (portsFor name new).length) =
      ((portsFor name old).take
        (min (portsFor name old).length (portsFor name new).length)).map Port.filled
  kept_iff : ∀ p ∈ old, p ∈ keptPorts old names ↔ p.id ∈ new.map (·.id)
  same : ∀ p ∈ old, ∀ q ∈ new, q.id = p.id → q = p.filled

/-- Where every port has a source name, the display names do not matter. -/
theorem candidates_of_named {existing : List Port} (h : ∀ p ∈ existing, p.sourceName ≠ "")
    (name : String) :
    candidates existing [] name = portsFor name existing := by
  have hfree : existing.filter (fun p => !([] : List String).contains p.id) = existing :=
    List.filter_eq_self.mpr (fun _ _ => rfl)
  have hblank : existing.filter (fun p => p.sourceName == "" && p.name == name) = [] := by
    rw [List.filter_eq_nil_iff]
    intro p hp
    simp [h p hp]
  rw [candidates, hfree, hblank, List.append_nil, portsFor]

namespace Matched

section Placed

variable {existing : List Port} {direction : Direction} {nodeId : String}
  {names minted : List String} {ports : List Port}

theorem placed (h : Matched existing direction nodeId [] names ports minted)
    (hnames : ∀ name ∈ names, name ≠ "") : ∀ q ∈ ports, q.PlacedAt nodeId direction := by
  intro q hq
  obtain ⟨-, hside, hnode⟩ := h.fields_of_mem hq
  exact ⟨hnames _ (h.sourceNames ▸ List.mem_map_of_mem hq), hnode, hside⟩

/-- Every port has the id of an existing one or a minted id. -/
theorem id_cases (h : Matched existing direction nodeId [] names ports minted) {q : Port}
    (hq : q ∈ ports) : q.id ∈ existing.map (·.id) ∨ q.id ∈ minted := by
  rcases h.cases_of_mem hq with ⟨p, hp, -, -, hkept⟩ | ⟨-, hid⟩
  · refine Or.inl (List.mem_map.mpr ⟨p, hp, ?_⟩)
    rw [hkept, Port.keptFor_id]
  · exact Or.inr hid

/-- There are as many ports for a name as the name comes up. -/
theorem length_portsFor (h : Matched existing direction nodeId [] names ports minted)
    (name : String) : (portsFor name ports).length = names.count name := by
  rw [← h.sourceNames, List.count, List.countP_map, List.countP_eq_length_filter]
  rfl

variable (h : Matched existing direction nodeId [] names ports minted)
  (hids : (existing.map (·.id)).Nodup) (hplaced : ∀ p ∈ existing, p.PlacedAt nodeId direction)
  (hnames : ∀ name ∈ names, name ≠ "")

include h hids hplaced hnames

/-- The ports for one name are the first of the old ones, as many as the name comes up, and minted
ones behind them. -/
theorem portsFor_eq (name : String) :
    ∃ made, portsFor name ports =
        ((portsFor name existing).take (names.count name)).map Port.filled ++ made ∧
      ∀ q ∈ made, q.id ∈ minted := by
  by_cases hname : name = ""
  · -- neither an old nor a new port is without a source name
    have hblank : ∀ {l : List Port}, (∀ p ∈ l, p.PlacedAt nodeId direction) →
        portsFor name l = [] := by
      intro l hl
      rw [portsFor, List.filter_eq_nil_iff]
      intro p hp
      simpa [hname] using (hl p hp).named
    refine ⟨[], ?_, by simp⟩
    rw [hblank (h.placed hnames), hblank hplaced, List.take_nil, List.map_nil, List.append_nil]
  · obtain ⟨made, hports, hmade⟩ := h.filter_eq hids hnames hname
    rw [candidates_of_named (fun p hp => (hplaced p hp).named)] at hports
    refine ⟨made, ?_, hmade⟩
    rw [portsFor, hports, List.append_cancel_right_eq]
    refine List.map_congr_left ?_
    intro p hp
    obtain ⟨hmem, rfl⟩ := mem_portsFor_iff.mp (List.mem_of_mem_take hp)
    exact (hplaced p hmem).keptFor_eq

/-- A kept port is still there. -/
theorem filled_mem {p : Port} (hp : p ∈ keptPorts existing names) : p.filled ∈ ports := by
  obtain ⟨made, hports, -⟩ := h.portsFor_eq hids hplaced hnames p.sourceName
  have hmem : p.filled ∈ portsFor p.sourceName ports := by
    rw [hports]
    exact List.mem_append_left _ (List.mem_map_of_mem (mem_keptPorts_iff.mp hp))
  exact (mem_portsFor_iff.mp hmem).1

/-- A port with the id of an old one is that port, and the old one was kept. -/
theorem kept_of_mem (hfresh : ∀ p ∈ existing, p.id ∉ minted) {p q : Port} (hp : p ∈ existing)
    (hq : q ∈ ports) (hid : q.id = p.id) : p ∈ keptPorts existing names ∧ q = p.filled := by
  obtain ⟨made, hports, hmade⟩ := h.portsFor_eq hids hplaced hnames q.sourceName
  have hmem : q ∈ portsFor q.sourceName ports := mem_portsFor_iff.mpr ⟨hq, rfl⟩
  rw [hports] at hmem
  rcases List.mem_append.mp hmem with hkept | hminted
  · obtain ⟨p', hp', hq'⟩ := List.mem_map.mp hkept
    obtain ⟨hmem', hsource⟩ := mem_portsFor_iff.mp (List.mem_of_mem_take hp')
    -- old ports have different ids, so this is the port with the id
    obtain rfl : p' = p :=
      List.inj_on_of_nodup_map hids hmem' hp (by rw [← hid, ← hq', Port.filled_id])
    refine ⟨mem_keptPorts_iff.mpr ?_, hq'.symm⟩
    rwa [hsource]
  · exact absurd (hid ▸ hmade q hminted) (hfresh p hp)

theorem follow (hfresh : ∀ p ∈ existing, p.id ∉ minted) : PortsFollow names existing ports where
  sourceNames := h.sourceNames
  first := by
    intro name
    obtain ⟨made, hports, -⟩ := h.portsFor_eq hids hplaced hnames name
    rw [h.length_portsFor name]
    have htake : (portsFor name existing).take
        (min (portsFor name existing).length (names.count name)) =
        (portsFor name existing).take (names.count name) := by
      rw [List.take_eq_take_iff]
      omega
    rw [hports, htake]
    exact List.take_left' (by rw [List.length_map, List.length_take, Nat.min_comm])
  kept_iff := by
    intro p hp
    constructor
    · intro hkept
      exact List.mem_map.mpr ⟨p.filled, h.filled_mem hids hplaced hnames hkept, p.filled_id⟩
    · intro hmem
      obtain ⟨q, hq, hid⟩ := List.mem_map.mp hmem
      exact (h.kept_of_mem hids hplaced hnames hfresh hp hq hid).1
  same := fun _ hp _ hq hid => (h.kept_of_mem hids hplaced hnames hfresh hp hq hid).2

end Placed

end Matched

/-! ## One node -/

/-- Some of the ids in a list may be replaced by others of them and by ids that are not in it. -/
theorem nodup_replaced {before old after ids : List String}
    (h : (before ++ (old ++ after)).Nodup) (hids : ids.Nodup)
    (hcases : ∀ id ∈ ids, id ∈ old ∨ id ∉ before ++ (old ++ after)) :
    (before ++ (ids ++ after)).Nodup := by
  simp only [List.mem_append, not_or] at hcases
  rw [List.nodup_append, List.nodup_append] at h ⊢
  obtain ⟨hbefore, ⟨-, hafter, hold⟩, hapart⟩ := h
  refine ⟨hbefore, ⟨hids, hafter, ?_⟩, ?_⟩
  · rintro id hid _ hmem rfl
    rcases hcases id hid with hkept | hnew
    · exact hold id hkept id hmem rfl
    · exact hnew.2.2 hmem
  · rintro id hid other hmem rfl
    rcases List.mem_append.mp hmem with hmem | hmem
    · rcases hcases id hmem with hkept | hnew
      · exact hapart id hid id (List.mem_append_left _ hkept) rfl
      · exact hnew.1 hid
    · exact hapart id hid id (List.mem_append_right _ hmem) rfl

/-- The node with new code: its inputs and then its outputs are derived again. -/
def Node.recoded (n : Node) (data : FunctionData) (code : String) (s : Supply) : Node :=
  let sig := Signature.ofSource code
  let ins := reconcilePorts n.inputs sig.inputs .input n.id s
  let outs := reconcilePorts n.outputs sig.outputs .output n.id ins.2
  { n with
    inputs := ins.1.map some
    outputs := outs.1.map some
    payload := some (.function { data with code := code }) }

/-- The ids of the inputs that new code brings. -/
def Node.mintedInputs (n : Node) (code : String) (s : Supply) : List String :=
  mintedIds n.inputs (Signature.ofSource code).inputs .input n.id s

/-- The ids of the outputs that new code brings. -/
def Node.mintedOutputs (n : Node) (code : String) (s : Supply) : List String :=
  mintedIds n.outputs (Signature.ofSource code).outputs .output n.id
    (s.after (n.mintedInputs code s).length)

/-- The ids of the ports that new code brings. -/
def Node.minted (n : Node) (code : String) (s : Supply) : List String :=
  n.mintedInputs code s ++ n.mintedOutputs code s

namespace Node

variable (n : Node) (data : FunctionData) (code : String) (s : Supply)

theorem recoded_inputs :
    Matched n.inputPorts .input n.id [] (Signature.ofSource code).inputs
      (n.recoded data code s).inputPorts (n.mintedInputs code s) := by
  simpa [recoded, inputPorts, List.filterMap_map, mintedInputs] using
    reconcilePorts_matched n.inputs (Signature.ofSource code).inputs .input n.id s

theorem recoded_outputs :
    Matched n.outputPorts .output n.id [] (Signature.ofSource code).outputs
      (n.recoded data code s).outputPorts (n.mintedOutputs code s) := by
  simpa [recoded, outputPorts, List.filterMap_map, mintedOutputs, mintedInputs,
    reconcilePorts_snd] using
    reconcilePorts_matched n.outputs (Signature.ofSource code).outputs .output n.id
      (s.after (n.mintedInputs code s).length)

/-- One token is drawn for each minted port, and its id ends in what was drawn. -/
theorem minted_suffixes : (n.minted code s).map suffixOf = s.shorts 6 (n.minted code s).length := by
  have hins : (n.mintedInputs code s).map suffixOf = s.shorts 6 (n.mintedInputs code s).length :=
    (reconcileFrom_matched n.inputPorts .input n.id [] 0 _ s).2.2
  have houts : (n.mintedOutputs code s).map suffixOf =
      (s.after (n.mintedInputs code s).length).shorts 6 (n.mintedOutputs code s).length :=
    (reconcileFrom_matched n.outputPorts .output n.id [] 0 _ _).2.2
  rw [minted, List.map_append, hins, houts, List.length_append, Supply.shorts_add]

variable {n} {data} {code} {s}

/-- A function node carries its new code. -/
theorem fits_recoded (hkind : n.kind = .function) (data : FunctionData) (code : String)
    (s : Supply) : (n.recoded data code s).Fits := by
  simp [recoded, Fits, NodeKind.isSupported, carriesFitting, function?, hkind]

/-- Every port of the node with new code has an old id or a minted one. -/
theorem recoded_id_cases {id : String} (hid : id ∈ (n.recoded data code s).ports.map (·.id)) :
    id ∈ n.ports.map (·.id) ∨ id ∈ n.minted code s := by
  obtain ⟨p, hp, rfl⟩ := List.mem_map.mp hid
  rw [ports, List.map_append, minted, List.mem_append, List.mem_append]
  rcases List.mem_append.mp hp with hp | hp
  · rcases (n.recoded_inputs data code s).id_cases hp with hold | hnew
    · exact Or.inl (Or.inl hold)
    · exact Or.inr (Or.inl hnew)
  · rcases (n.recoded_outputs data code s).id_cases hp with hold | hnew
    · exact Or.inl (Or.inr hold)
    · exact Or.inr (Or.inr hnew)

/-- The ports of the node with new code have different ids, when the minted ids are new ones. -/
theorem recoded_ids_nodup (hids : (n.ports.map (·.id)).Nodup) (hminted : (n.minted code s).Nodup)
    (hfresh : ∀ p ∈ n.ports, p.id ∉ n.minted code s) :
    ((n.recoded data code s).ports.map (·.id)).Nodup := by
  have hins := n.recoded_inputs data code s
  have houts := n.recoded_outputs data code s
  have hfreshIn : ∀ p ∈ n.inputPorts, p.id ∉ n.minted code s :=
    fun p hp => hfresh p (List.mem_append_left _ hp)
  have hfreshOut : ∀ p ∈ n.outputPorts, p.id ∉ n.minted code s :=
    fun p hp => hfresh p (List.mem_append_right _ hp)
  rw [ports, List.map_append, List.nodup_append] at hids ⊢
  obtain ⟨-, -, hsides⟩ := hids
  obtain ⟨hmintedIn, hmintedOut, hapart⟩ := List.nodup_append.mp hminted
  refine ⟨hins.nodup hmintedIn ?_, houts.nodup hmintedOut ?_, ?_⟩
  · exact fun p hp hmem => hfreshIn p hp (List.mem_append_left _ hmem)
  · exact fun p hp hmem => hfreshOut p hp (List.mem_append_right _ hmem)
  · -- an input and an output of one id are kept both, minted both, or one kept and one minted
    intro id hid id' hid' hsame
    obtain ⟨p, hp, rfl⟩ := List.mem_map.mp hid
    obtain ⟨q, hq, rfl⟩ := List.mem_map.mp hid'
    rcases hins.id_cases hp with hold | hnew <;> rcases houts.id_cases hq with hold' | hnew'
    · exact hsides _ hold _ hold' hsame
    · obtain ⟨p₀, hp₀, hpid⟩ := List.mem_map.mp hold
      exact hfreshIn p₀ hp₀ (by rw [hpid, hsame]; exact List.mem_append_right _ hnew')
    · obtain ⟨q₀, hq₀, hqid⟩ := List.mem_map.mp hold'
      exact hfreshOut q₀ hq₀ (by rw [hqid, ← hsame]; exact List.mem_append_left _ hnew)
    · exact hapart _ hnew _ hnew' hsame

/-- A node whose ports are all found again stays as it is. -/
theorem recoded_self
    (hins : reconcilePorts n.inputs (Signature.ofSource data.code).inputs .input n.id s =
      (n.inputPorts, s))
    (houts : reconcilePorts n.outputs (Signature.ofSource data.code).outputs .output n.id s =
      (n.outputPorts, s))
    (hinputs : n.inputPorts.map some = n.inputs) (houtputs : n.outputPorts.map some = n.outputs)
    (hpayload : n.payload = some (.function data)) :
    n.recoded data data.code s = n ∧ n.minted data.code s = [] := by
  have hnone : n.mintedInputs data.code s = [] := mintedIds_eq_nil hins
  refine ⟨?_, ?_⟩
  · simp only [recoded, hins, houts, hinputs, houtputs, ← hpayload]
  · rw [minted, mintedOutputs, hnone, List.length_nil, Supply.after_zero, mintedIds_eq_nil houts]
    rfl

/-- The same code once more changes nothing, and no port is minted. -/
theorem recoded_again (hids : ((n.recoded data code s).ports.map (·.id)).Nodup) (s' : Supply) :
    (n.recoded data code s).recoded { data with code := code } code s' = n.recoded data code s ∧
      (n.recoded data code s).minted code s' = [] := by
  obtain ⟨hinNames, houtNames⟩ := Signature.named code
  rw [ports, List.map_append, List.nodup_append] at hids
  have hinputs : (n.recoded data code s).inputPorts.map some = (n.recoded data code s).inputs := by
    simp [recoded, inputPorts, List.filterMap_map]
  have houtputs :
      (n.recoded data code s).outputPorts.map some = (n.recoded data code s).outputs := by
    simp [recoded, outputPorts, List.filterMap_map]
  have hins := (n.recoded_inputs data code s).again hinNames hids.1 s'
  have houts := (n.recoded_outputs data code s).again houtNames hids.2.1 s'
  rw [hinputs] at hins
  rw [houtputs] at houts
  have hpayload : (n.recoded data code s).payload =
      some (.function { data with code := code }) := rfl
  exact recoded_self hins houts hinputs houtputs hpayload

end Node

/-- A function node gets its new code, and the connections whose ports are still there stay. -/
theorem Flow.updateCode_of_function {f : Flow} {nodeId : String} {n : Node} {data : FunctionData}
    (hn : f.settled.node? nodeId = some n) (hdata : n.function? = some data)
    (hkind : n.kind = .function) (code : String) (s : Supply) :
    f.updateCode nodeId code s =
      (.ok { f.settled with
        nodes := updateFirst nodeId (fun _ => n.recoded data code s) f.settled.nodes
        connections :=
          (f.settled.liveConnections.filter (survives (n.recoded data code s))).map some },
        s.after (n.minted code s).length) := by
  simp only [updateCode, hn, hdata, hkind, Node.recoded, reconcilePorts_snd, Supply.after_after,
    Node.minted, Node.mintedInputs, Node.mintedOutputs, List.length_append]

/-- The node is a function node, or its new code is refused. -/
theorem Flow.function_or_refused (f : Flow) (nodeId code : String) (s : Supply) :
    (∃ n data, f.settled.node? nodeId = some n ∧ n.function? = some data ∧ n.kind = .function) ∨
      ∃ error, f.updateCode nodeId code s = (.error error, s) := by
  unfold updateCode
  dsimp only
  split
  · exact Or.inr ⟨_, rfl⟩
  · next n hn =>
    split
    · next data hdata hkind => exact Or.inl ⟨n, data, hn, hdata, hkind⟩
    · exact Or.inr ⟨_, rfl⟩

end FlowScript
