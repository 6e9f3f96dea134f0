import FlowScript.Proofs.Script.Variables

/-!
# Variables are assigned before they are read

When the ids of the nodes differ and the dependencies give the order, a block only reads variables
that an earlier block assigns: the wire of an input leads from a node whose block stands before, and
that block assigns the variable that the table holds for the end of the wire.

## Main definitions

- `Argument.Passes`, `Argument.PassesNone` — what an argument of a call hands over

## Main results

- `mem_arguments` — an argument passes `None` or what an input is wired to
- `Plan.source_before` — the node at the other end of a wire has an earlier block
- `blocks_read_assigned_variables` — what a block reads is assigned in an earlier block
-/

namespace FlowScript

namespace Script

/-- An argument gives a parameter no value. -/
def Argument.PassesNone (a : Argument) : Prop :=
  ∃ parameter, IsWord parameter ∧ a.text = parameter ++ "=None"

/-- An argument passes the variable `v`: by position, by name, or behind stars. -/
def Argument.Passes (a : Argument) (v : String) : Prop :=
  a.text = v ∨ (∃ parameter, IsWord parameter ∧ a.text = parameter ++ "=" ++ v) ∨
    ∃ n, a.text = String.ofList (List.replicate n '*') ++ v

theorem exists_starsOf_eq (parameter : String) :
    ∃ n, starsOf parameter = String.ofList (List.replicate n '*') := by
  refine ⟨(parameter.toList.takeWhile (· == '*')).length, congrArg String.ofList ?_⟩
  refine List.eq_replicate_of_mem ?_
  intro c hc
  simpa using List.mem_takeWhile_imp hc

/-- An argument passes `None` or the variable that an input is wired to. -/
theorem mem_arguments {keyword : Bool} {inputs : List (Port × Option String)} {a : Argument}
    (h : a ∈ arguments keyword inputs) :
    a.PassesNone ∨ ∃ port v, (port, some v) ∈ inputs ∧ a.Passes v := by
  induction inputs generalizing keyword with
  | nil => cases h
  | cons input rest ih =>
    obtain ⟨port, source⟩ := input
    have later : ∀ {k}, a ∈ arguments k rest →
        a.PassesNone ∨ ∃ p v, (p, some v) ∈ (port, source) :: rest ∧ a.Passes v := by
      intro k hk
      rcases ih hk with hnone | ⟨p, v, hmem, hv⟩
      · exact Or.inl hnone
      · exact Or.inr ⟨p, v, List.mem_cons_of_mem _ hmem, hv⟩
    -- the parameter is a slash, a bare star, plain, or starred
    have hword := isWord_sanitize (Port.parameter port)
    simp only [arguments] at h
    split at h
    · exact later h
    · split at h
      · exact later h
      · split at h
        · cases source with
          | none =>
            rcases List.mem_cons.mp h with rfl | h
            · exact Or.inl ⟨_, hword, rfl⟩
            · exact later h
          | some v =>
            rcases List.mem_cons.mp h with rfl | h
            · refine Or.inr ⟨port, v, List.mem_cons_self, ?_⟩
              cases keyword with
              | false => exact Or.inl rfl
              | true => exact Or.inr (Or.inl ⟨_, hword, rfl⟩)
            · exact later h
        · cases source with
          | none => exact later h
          | some v =>
            rcases List.mem_cons.mp h with rfl | h
            · obtain ⟨n, hn⟩ := exists_starsOf_eq (Port.parameter port)
              exact Or.inr ⟨port, v, List.mem_cons_self, Or.inr (Or.inr ⟨n, by rw [hn]⟩)⟩
            · exact later h

/-- The first line of an output node with an input gives its variable what the input is wired to. -/
theorem exists_sinkLines_eq {f : Flow} {c : Collected} {p : Placed} {input : Port}
    {rest : List Port} (h : p.node.inputPorts = input :: rest) :
    ∃ others, sinkLines f c p =
      (sinkVariable p.name ++ " = " ++ (resolve? f c p.node.id input.id).getD
        ("None  # no source connected to " ++ remarkText p.node.name)) :: others := by
  unfold sinkLines
  rw [h]
  exact ⟨_, rfl⟩

namespace Plan

variable {f : Flow}

/-- When the ids differ, the graph attaches an id to the place of the block with that id. -/
theorem placeIn_eq (hids : (f.liveNodes.map (·.id)).Nodup) {p : Placed}
    (hp : p ∈ (ofFlow f).nodes) : Graph.placeIn f.liveNodes p.node.id = some p.place :=
  Graph.place?_id (g := Graph.ofFlow f) hids (node_at hp)

/-- Of two blocks in order, the first stands in front of every cut at the second. -/
theorem mem_before_of_precedes {before after : List Placed} {p q : Placed}
    (hsplit : (ofFlow f).nodes = before ++ p :: after) (hq : q ∈ (ofFlow f).nodes)
    (h : (ofFlow f).Precedes q.place p.place) : q ∈ before := by
  obtain ⟨front, between, back, q', p', hnodes, hq', hp'⟩ := h
  have hp : p ∈ (ofFlow f).nodes := by rw [hsplit]; simp
  have hpeq : p' = p := eq_of_place (by rw [hnodes]; simp) hp hp'
  have hqeq : q' = q := eq_of_place (by rw [hnodes]; simp) hq hq'
  rw [hpeq, hqeq] at hnodes
  have hnodup : (ofFlow f).nodes.Nodup := (places_nodup f).of_map
  have hregroup : before ++ p :: after = (front ++ q :: between) ++ p :: back := by
    rw [← hsplit, hnodes, List.append_assoc, List.cons_append]
  -- a block occurs once, so both cuts are at the same spot
  have hbefore : p ∉ before ∧ p ∉ after := by
    rw [hsplit] at hnodup
    simpa [List.mem_append] using (List.nodup_middle.mp hnodup).notMem
  have heq : before = front ++ q :: between :=
    ((List.append_cons_inj_of_notMem hbefore.1 hbefore.2).mp hregroup).1
  rw [heq]
  simp

/-- The node at the other end of the wire of an input has a block, and it stands before. -/
theorem source_before (hids : (f.liveNodes.map (·.id)).Nodup)
    (hord : (Graph.ofFlow f).isOrdered = true) {before after : List Placed} {p : Placed}
    (hsplit : (ofFlow f).nodes = before ++ p :: after) {port : String} {wire : Connection}
    (hwire : f.incoming? p.node.id port = some wire) {q : Placed} (hq : q ∈ (ofFlow f).nodes)
    (hid : q.node.id = wire.sourceNode) : q ∈ before := by
  have hp : p ∈ (ofFlow f).nodes := by rw [hsplit]; simp
  have hmem : wire ∈ f.liveConnections := List.mem_of_find?_eq_some hwire
  have htarget : wire.targetNode = p.node.id := by
    have := List.find?_some hwire
    simp only [Bool.and_eq_true, beq_iff_eq] at this
    exact this.1
  have hedge : Graph.edgeIn? f.liveNodes wire = some (q.place, p.place) := by
    rw [Graph.edgeIn?_eq_some_iff, htarget, ← hid]
    exact ⟨placeIn_eq hids hq, placeIn_eq hids hp⟩
  exact mem_before_of_precedes hsplit hq
    (precedes_of_edge hord (Graph.ofFlow_edge_iff.mpr ⟨wire, hmem, hedge⟩))

/-- What an input is wired to is assigned in the block of the node at the other end of the wire,
which stands before. -/
theorem resolved_before (hids : (f.liveNodes.map (·.id)).Nodup)
    (hord : (Graph.ofFlow f).isOrdered = true) {before after : List Placed} {p : Placed}
    (hsplit : (ofFlow f).nodes = before ++ p :: after) {port v : String}
    (hv : resolve? f (ofFlow f).collected p.node.id port = some v) :
    ∃ wire q, f.incoming? p.node.id port = some wire ∧ q ∈ before ∧
      q.node.id = wire.sourceNode ∧
      ∃ line ∈ lines (block f (ofFlow f).collected q), Assigns line v := by
  unfold resolve? at hv
  cases hwire : f.incoming? p.node.id port with
  | none => simp [hwire] at hv
  | some wire =>
    simp only [hwire] at hv
    obtain ⟨q, hq, hid, -⟩ := valueOf?_cases hv
    rw [← hid] at hv
    exact ⟨wire, q, rfl, source_before hids hord hsplit hwire hq hid, hid,
      assigns_of_valueOf? hids hq hv⟩

end Plan

end Script

open Script

/-- In a flow whose nodes have different ids and whose dependencies give the order, whatever an input
of a node is wired to is assigned in the block of the node it is wired to, and that block stands
before. So every argument of a call passes `None` or a variable that an earlier block assigns, an
output node shows `None` or such a variable, and a tabular input only reads the text of its rows,
which its own block assigns first. -/
theorem blocks_read_assigned_variables (f : Flow) (stamp : String)
    (hids : (f.liveNodes.map (·.id)).Nodup) (hord : (Graph.ofFlow f).isOrdered = true)
    (before after : List Placed) (p : Placed)
    (hsplit : (Plan.ofFlow f).nodes = before ++ p :: after) :
    (∃ front, (f.compileAt stamp).script =
      front ++ driver ((before ++ p :: after).map (block f (Plan.ofFlow f).collected))) ∧
    (∀ port v, resolve? f (Plan.ofFlow f).collected p.node.id port = some v →
      ∃ wire q, f.incoming? p.node.id port = some wire ∧ q ∈ before ∧
        q.node.id = wire.sourceNode ∧
        ∃ line ∈ lines (block f (Plan.ofFlow f).collected q), Assigns line v) ∧
    (∀ a ∈ arguments false (wiredInputs f (Plan.ofFlow f).collected p.node),
      a.PassesNone ∨ ∃ v, a.Passes v ∧ AssignedIn f (Plan.ofFlow f).collected before v) ∧
    (∀ input rest, p.node.inputPorts = input :: rest →
      ∃ source others, sinkLines f (Plan.ofFlow f).collected p =
          (sinkVariable p.name ++ " = " ++ source) :: others ∧
        ((∃ remark, source = "None" ++ remark) ∨
          AssignedIn f (Plan.ofFlow f).collected before source)) ∧
    (∀ rows, (Plan.ofFlow f).collected.rows.lookup p.place = some rows →
      ∃ helper value, tableLines (Plan.ofFlow f).collected p =
        [helper ++ " = " ++ value,
          tableVariable p.name ++ " = pd.DataFrame(json.loads(" ++ helper ++ "))"]) := by
  have hresolved : ∀ port v, resolve? f (Plan.ofFlow f).collected p.node.id port = some v →
      AssignedIn f (Plan.ofFlow f).collected before v := by
    intro port v hv
    obtain ⟨-, q, -, hq, -, hline⟩ := Plan.resolved_before hids hord hsplit hv
    exact ⟨q, hq, hline⟩
  refine ⟨?_, ?_, ?_, ?_, ?_⟩
  · rw [← hsplit]
    exact ⟨_, rfl⟩
  · intro port v hv
    exact Plan.resolved_before hids hord hsplit hv
  · intro a ha
    rcases mem_arguments ha with hnone | ⟨port, v, hmem, hpass⟩
    · exact Or.inl hnone
    · obtain ⟨input, -, heq⟩ := List.mem_map.mp hmem
      exact Or.inr ⟨v, hpass, hresolved input.id v (congrArg Prod.snd heq)⟩
  · intro input rest hinputs
    obtain ⟨others, hlines⟩ := exists_sinkLines_eq hinputs
    cases hsource : resolve? f (Plan.ofFlow f).collected p.node.id input.id with
    | none =>
      have hremark : "None  # no source connected to " =
          "None" ++ "  # no source connected to " := rfl
      rw [hsource, Option.getD_none, hremark] at hlines
      exact ⟨_, others, hlines, Or.inl ⟨_, String.append_assoc⟩⟩
    | some v =>
      rw [hsource, Option.getD_some] at hlines
      exact ⟨v, others, hlines, Or.inr (hresolved input.id v hsource)⟩
  · intro rows hrows
    obtain ⟨value, hlines⟩ := tableLines_of_rows hrows
    refine ⟨tableVariable p.name ++ "_json_data_str", value, ?_⟩
    have hreads : " = pd.DataFrame(json.loads(" = " = " ++ "pd.DataFrame(json.loads(" := rfl
    simp only [hlines, hreads, String.append_assoc]

/-- A tabular input. -/
def salesNode : Node :=
  { id := "a", kind := .csvInput, name := "Sales"
    outputs := [some { id := "a.o", nodeId := "a", direction := .output }] }

/-- A call with two outputs whose ports share an id. -/
def cleanNode : Node :=
  { id := "b", kind := .function, name := "Clean"
    inputs := [none, some { id := "b.i", name := "t", nodeId := "b", direction := .input }]
    outputs := [some { id := "b.o", nodeId := "b", direction := .output },
      some { id := "b.o", nodeId := "b", direction := .output }]
    payload := some (.function { code := "def f(t):\n    return t, t" }) }

/-- An output node. -/
def shownNode : Node :=
  { id := "c", kind := .output, name := "Shown"
    inputs := [some { id := "c.i", nodeId := "c", direction := .input }] }

/-- A flow listed against its dependencies, with a missing node and a wire that leads nowhere. -/
def salesFlow : Flow :=
  { nodes := [some shownNode, some cleanNode, none, some salesNode]
    connections := [some ⟨"u", "b", "b.o", "z", "z.i"⟩, some ⟨"v", "b", "b.o", "c", "c.i"⟩, none,
      some ⟨"w", "a", "a.o", "b", "b.i"⟩] }

/-- The output node of the flow shows the variable that both outputs of the call share, and the block
of the call assigns it. -/
theorem salesFlow_reads_assigned_variables :
    (salesFlow.liveNodes.map (·.id)).Nodup ∧ (Graph.ofFlow salesFlow).isOrdered = true ∧
    (Plan.ofFlow salesFlow).nodes =
      [⟨2, "a", salesNode⟩, ⟨1, "b", cleanNode⟩] ++ ⟨0, "c", shownNode⟩ :: [] ∧
    resolve? salesFlow (Plan.ofFlow salesFlow).collected "c" "c.i" = some "f_output_1_b" ∧
    ∃ wire q, salesFlow.incoming? "c" "c.i" = some wire ∧
      q ∈ [⟨2, "a", salesNode⟩, ⟨1, "b", cleanNode⟩] ∧ q.node.id = wire.sourceNode ∧
      ∃ line ∈ lines (block salesFlow (Plan.ofFlow salesFlow).collected q),
        Assigns line "f_output_1_b" := by
  have hids : (salesFlow.liveNodes.map (·.id)).Nodup := by decide
  have hord : (Graph.ofFlow salesFlow).isOrdered = true := by decide +kernel
  have hsplit : (Plan.ofFlow salesFlow).nodes =
      [⟨2, "a", salesNode⟩, ⟨1, "b", cleanNode⟩] ++ ⟨0, "c", shownNode⟩ :: [] := rfl
  have hv : resolve? salesFlow (Plan.ofFlow salesFlow).collected "c" "c.i" =
      some "f_output_1_b" := by decide +kernel
  exact ⟨hids, hord, hsplit, hv,
    (blocks_read_assigned_variables salesFlow "" hids hord _ _ _ hsplit).2.1 "c.i" _ hv⟩

end FlowScript
