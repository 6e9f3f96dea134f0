import FlowScript.Proofs.Script.Targets

/-!
# When generated names differ

The names of the nodes differ, but the names in the driver are composed of functions, fixed parts,
numbers and node names, and two compositions can give one text. Here it is told exactly when.

## Main definitions

- `Hygienic` — different values have different names, and no name hides a function that is called
- `Overlaps` — the variable of an output reads as a fixed part and a rest
- `Untangled` — no two compositions of the flow give one text, told by functions and node names

## Main results

- `output_eq_cases` — when two outputs have the same variable
- `hygienic_iff_untangled` — names are hygienic exactly when nothing overlaps
-/

namespace FlowScript

namespace Script

/-! ## Composed texts -/

theorem string_append_eq_append_iff {s t u v : String} :
    s ++ t = u ++ v ↔ (∃ r, u = s ++ r ∧ t = r ++ v) ∨ ∃ r, s = u ++ r ∧ v = r ++ t := by
  constructor
  · intro h
    have hlist : s.toList ++ t.toList = u.toList ++ v.toList := by
      rw [← String.toList_append, h, String.toList_append]
    rcases List.append_eq_append_iff.mp hlist with ⟨r, h₁, h₂⟩ | ⟨r, h₁, h₂⟩
    · refine Or.inl ⟨String.ofList r, ?_, ?_⟩ <;> apply String.toList_injective <;> simpa
    · refine Or.inr ⟨String.ofList r, ?_, ?_⟩ <;> apply String.toList_injective <;> simpa
  · rintro (⟨r, rfl, rfl⟩ | ⟨r, rfl, rfl⟩) <;> simp [String.append_assoc]

theorem outputMark : "_output_" = "_" ++ "output_" :=
  rfl

/-- The variable of the output `tail` of `function` reads as `lead` and then `rest`: the function
goes on behind `lead`, and `rest` has what is missing. -/
def Overlaps (function tail lead rest : String) : Prop :=
  ∃ between, function ++ "_" = lead ++ between ∧ rest = between ++ "output_" ++ tail

theorem Overlaps.eq {function tail lead rest : String} (h : Overlaps function tail lead rest) :
    function ++ "_output_" ++ tail = lead ++ rest := by
  obtain ⟨between, hfunction, rfl⟩ := h
  rw [outputMark, ← String.append_assoc, hfunction]
  simp only [String.append_assoc]

/-- When no underscore of `lead` is followed by an `o`, there is no other way to read it. -/
theorem overlaps_of_eq {function tail lead rest : String}
    (hlead : ∀ back ∈ lead.toList.tails, back.take 2 ≠ ['_', 'o'])
    (h : function ++ "_output_" ++ tail = lead ++ rest) : Overlaps function tail lead rest := by
  have h' : (function ++ "_") ++ ("output_" ++ tail) = lead ++ rest := by
    rw [← h, outputMark]
    simp only [String.append_assoc]
  rcases string_append_eq_append_iff.mp h' with ⟨r, hl, hr⟩ | ⟨r, hl, hr⟩
  · by_cases hempty : r = ""
    · refine ⟨"", ?_, ?_⟩
      · simp [hl, hempty]
      · simpa [hempty] using hr.symm
    · -- `lead` goes on behind the underscore, so it goes on as the mark of an output does
      exfalso
      obtain ⟨c, cs, hcs⟩ : ∃ c cs, r.toList = c :: cs := by
        cases hr' : r.toList with
        | nil => exact absurd (String.toList_injective hr') hempty
        | cons c cs => exact ⟨c, cs, rfl⟩
      have hc : c = 'o' := by
        have := congrArg (fun s : String => s.toList.head?) hr
        simpa [hcs] using this.symm
      refine hlead ('_' :: r.toList) ?_ ?_
      · rw [List.mem_tails, hl]
        exact ⟨function.toList, by simp⟩
      · simp [hcs, hc]
  · exact ⟨r, hl, by simp [hr, String.append_assoc]⟩

theorem overlaps_table_iff {function tail name : String} :
    Overlaps function tail "df_" name ↔ function ++ "_output_" ++ tail = tableVariable name :=
  ⟨Overlaps.eq, overlaps_of_eq (by decide)⟩

theorem overlaps_sink_iff {function tail name : String} :
    Overlaps function tail "output_value_for_" name ↔
      function ++ "_output_" ++ tail = sinkVariable name :=
  ⟨Overlaps.eq, overlaps_of_eq (by decide)⟩

/-- If the function of the second name is longer, the first name reads over the mark of the second. -/
theorem output_eq_of_longer {function tail tail' more : String}
    (h : "_output_" ++ tail = more ++ ("_output_" ++ tail')) :
    (more = "" ∧ tail = tail') ∨
      Overlaps (function ++ more) tail' (function ++ "_output_") tail := by
  have h' : "_output_" ++ tail = (more ++ "_") ++ ("output_" ++ tail') := by
    rw [h, outputMark]
    simp only [String.append_assoc]
  rcases string_append_eq_append_iff.mp h' with ⟨r, hl, hr⟩ | ⟨r, hl, hr⟩
  · refine Or.inr ⟨r, ?_, ?_⟩
    · rw [String.append_assoc, hl, String.append_assoc]
    · rw [hr, String.append_assoc]
  · -- `more` and an underscore are a beginning of the mark: the underscore is its first or its last
    have hback : '_' :: r.toList ∈ "_output_".toList.tails := by
      rw [List.mem_tails, hl]
      exact ⟨more.toList, by simp⟩
    have hplaces : ∀ back ∈ "_output_".toList.tails, back.head? = some '_' →
        back = "_output_".toList ∨ back = ['_'] := by decide
    rcases hplaces _ hback rfl with hfirst | hlast
    · have hr' : r = "output_" := String.toList_injective (List.cons.inj hfirst).2
      subst hr'
      have hmore : more = "" := by
        have hlength := congrArg (fun s : String => s.toList.length) hl
        simpa using hlength
      exact Or.inl ⟨hmore, by simpa using hr.symm⟩
    · have hr' : r = "" := String.toList_injective (List.cons.inj hlast).2
      subst hr'
      refine Or.inr ⟨"", ?_, by simpa using hr.symm⟩
      simpa [String.append_assoc] using congrArg (function ++ ·) hl.symm

/-- Two outputs have one variable when they have one function and one tail, or when one of the
variables overlaps the other. -/
theorem output_eq_cases {function tail function' tail' : String}
    (h : function ++ "_output_" ++ tail = function' ++ "_output_" ++ tail') :
    (function = function' ∧ tail = tail') ∨
      Overlaps function' tail' (function ++ "_output_") tail ∨
      Overlaps function tail (function' ++ "_output_") tail' := by
  rw [String.append_assoc, String.append_assoc] at h
  rcases string_append_eq_append_iff.mp h with ⟨more, rfl, hm⟩ | ⟨more, rfl, hm⟩
  · rcases output_eq_of_longer hm with ⟨rfl, rfl⟩ | hover
    · exact Or.inl ⟨by simp, rfl⟩
    · exact Or.inr (Or.inl hover)
  · rcases output_eq_of_longer hm with ⟨rfl, rfl⟩ | hover
    · exact Or.inl ⟨by simp, rfl⟩
    · exact Or.inr (Or.inr hover)

theorem not_overlaps_self {function tail tail' : String} :
    ¬ Overlaps function tail (function ++ "_output_") tail' := by
  rintro ⟨between, hfunction, -⟩
  have hlength := congrArg (fun s : String => s.toList.length) hfunction
  simp at hlength

/-- The number in front of an underscore can be told from what follows. -/
theorem numbered_inj {i j : Nat} {name name' : String}
    (h : toString i ++ "_" ++ name = toString j ++ "_" ++ name') : i = j ∧ name = name' := by
  have hdigits : ∀ n : Nat, '_' ∉ (toString n).toList := by
    intro n
    rw [Nat.toString_eq_repr, Nat.toList_repr]
    exact Nat.underscore_not_in_toDigits
  have hlist : (toString i).toList ++ '_' :: name.toList =
      (toString j).toList ++ '_' :: name'.toList := by
    simpa using congrArg String.toList h
  -- digits hold no underscore, so both texts fall apart at their first one
  obtain ⟨hi, hname⟩ := Text.append_sep_inj (hdigits i) (hdigits j) hlist
  exact ⟨toString_injective (String.toList_injective hi), String.toList_injective hname⟩

/-- Equal tails come from equal names and numbers, or a single output is named like a numbered
one. -/
theorem outputTail_eq_cases {m n i j : Nat} {name name' : String}
    (h : outputTail m i name = outputTail n j name') :
    ((m = 1 ↔ n = 1) ∧ (m ≠ 1 → i = j) ∧ name = name') ∨
      (m = 1 ∧ n ≠ 1 ∧ name = toString j ++ "_" ++ name') ∨
      (n = 1 ∧ m ≠ 1 ∧ name' = toString i ++ "_" ++ name) := by
  unfold outputTail at h
  by_cases hm : m = 1 <;> by_cases hn : n = 1
  · rw [if_pos hm, if_pos hn] at h
    exact Or.inl ⟨⟨fun _ => hn, fun _ => hm⟩, fun hne => absurd hm hne, h⟩
  · rw [if_pos hm, if_neg hn] at h
    exact Or.inr (Or.inl ⟨hm, hn, h⟩)
  · rw [if_neg hm, if_pos hn] at h
    exact Or.inr (Or.inr ⟨hn, hm, h.symm⟩)
  · rw [if_neg hm, if_neg hn] at h
    obtain ⟨hij, hname⟩ := numbered_inj h
    exact Or.inl ⟨⟨fun h => absurd h hm, fun h => absurd h hn⟩, fun _ => hij, hname⟩

/-! ## Hygiene -/

/-- The function that a block calls. -/
def calledFunction? (c : Collected) (p : Placed) : Option String :=
  match p.node.kind with
  | .function => (c.calls.lookup p.place).getD none
  | _ => none

/-- Names in the driver do not get into each other's way. -/
structure Hygienic (f : Flow) (plan : Plan) : Prop where
  /-- Different output ports have different variables. -/
  ports : ∀ id port id' port' v, plan.collected.valueOf? id port = some v →
    plan.collected.valueOf? id' port' = some v → id = id' ∧ port = port'
  /-- No variable of an output port is used for something else. -/
  helpers : ∀ id port v, plan.collected.valueOf? id port = some v →
    ∀ p ∈ plan.nodes, v ∉ helperNames plan.collected p
  /-- No line assigns the name of a function that is called, and the driver does not have it. -/
  functions : ∀ p ∈ plan.nodes, ∀ function, calledFunction? plan.collected p = some function →
    function ≠ "run_flow" ∧
      ∀ q ∈ plan.nodes, ∀ line ∈ bodyLines f plan.collected q, ¬ Targets line function

namespace Placed

/-- A node calls a function. -/
def Calls (p : Placed) (function : String) : Prop :=
  p.node.kind = .function ∧ p.call? = some function

/-- Output `i` of a call has the variable that `function` and `tail` give. -/
structure HasOutput (p : Placed) (i : Nat) (function tail : String) : Prop where
  calls : p.Calls function
  lt : i < p.node.outputPorts.length
  tail_eq : tail = outputTail p.node.outputPorts.length i p.name

/-- A tabular input has a port for its table. -/
def HasTable (p : Placed) : Prop :=
  p.node.kind.isTabular = true ∧ p.node.outputPorts ≠ []

/-- A tabular input holds its rows. -/
def HasRows (p : Placed) : Prop :=
  p.node.kind.isTabular = true ∧ p.rows?.isSome = true

/-- An output node has an input to show. -/
def Shows (p : Placed) : Prop :=
  p.node.kind = .output ∧ p.node.inputPorts ≠ []

end Placed

/-- No two compositions of functions, fixed parts, numbers and node names give one text. -/
structure Untangled (nodes : List Placed) : Prop where
  /-- No node with one output is named like a numbered output of another call of its function. -/
  numbered : ∀ p ∈ nodes, ∀ q ∈ nodes, ∀ function, p.Calls function → q.Calls function →
    p.node.outputPorts.length = 1 → q.node.outputPorts.length ≠ 1 →
    ∀ j < q.node.outputPorts.length, p.name ≠ toString j ++ "_" ++ q.name
  /-- No output of a call reads as an output of a function with a shorter name. -/
  outputs : ∀ p ∈ nodes, ∀ q ∈ nodes, ∀ i j function tail function' tail',
    p.HasOutput i function tail → q.HasOutput j function' tail' →
    ¬ Overlaps function' tail' (function ++ "_output_") tail
  /-- No output of a call reads as a table. -/
  tables : ∀ p ∈ nodes, ∀ q ∈ nodes, ∀ i function tail, p.HasOutput i function tail →
    q.HasTable → ¬ Overlaps function tail "df_" q.name
  /-- No output of a call reads as the rows of a table. -/
  rows : ∀ p ∈ nodes, ∀ q ∈ nodes, ∀ i function tail, p.HasOutput i function tail →
    q.HasRows → ¬ Overlaps function tail "df_" (q.name ++ "_json_data_str")
  /-- No table is named like the rows of a table. -/
  tableRows : ∀ p ∈ nodes, ∀ q ∈ nodes, p.HasTable → q.HasRows →
    p.name ≠ q.name ++ "_json_data_str"
  /-- No output of a call reads as what an output node shows. -/
  shown : ∀ p ∈ nodes, ∀ q ∈ nodes, ∀ i function tail, p.HasOutput i function tail →
    q.Shows → ¬ Overlaps function tail "output_value_for_" q.name
  /-- No function that is called is named like the driver, an output, a table, its rows or what an
  output node uses. -/
  functions : ∀ p ∈ nodes, ∀ function, p.Calls function → function ≠ "run_flow" ∧ ∀ q ∈ nodes,
    (∀ i function' tail, q.HasOutput i function' tail → function ≠ function' ++ "_output_" ++ tail) ∧
    (q.node.kind.isTabular = true → function ≠ tableVariable q.name) ∧
    (q.HasRows → function ≠ tableVariable q.name ++ "_json_data_str") ∧
    (q.Shows → function ≠ sinkVariable q.name ∧ function ≠ "buf" ∧ function ≠ "img_str")

/-! ## The names of a flow -/

/-- The outputs of a node: those of its call, or its table at its first port. -/
theorem Placed.mem_outputs_iff {p : Placed} {o : String × String} :
    o ∈ p.outputs ↔
      (∃ i function tail port, p.HasOutput i function tail ∧
        p.node.outputPorts[i]? = some port ∧ o = (port.id, function ++ "_output_" ++ tail)) ∨
      (p.node.kind.isTabular = true ∧ ∃ port rest, p.node.outputPorts = port :: rest ∧
        o = (port.id, tableVariable p.name)) := by
  by_cases hk : p.node.kind.isTabular = true
  · have hcalls : ∀ function, ¬ p.Calls function := by
      rintro function ⟨hkind, -⟩
      simp [hkind, NodeKind.isTabular] at hk
    rw [outputs_of_tabular hk]
    constructor
    · intro h
      split at h
      · cases h
      · next port rest hports => exact Or.inr ⟨hk, port, rest, hports, List.mem_singleton.mp h⟩
    · rintro (⟨i, function, tail, port, hout, -⟩ | ⟨-, port, rest, hports, rfl⟩)
      · exact absurd hout.calls (hcalls function)
      · simp [hports]
  · constructor
    · intro h
      have hkind : p.node.kind = .function := by
        cases hkind : p.node.kind <;> simp_all [outputs, NodeKind.isTabular]
      cases hcall : p.call? with
      | none => simp [outputs, hkind, hcall] at h
      | some function =>
        simp only [outputs, hkind, hcall] at h
        obtain ⟨i, port, hi, h₁, h₂⟩ := mem_outputVariables_iff.mp h
        exact Or.inl ⟨i, function, _, port,
          ⟨⟨hkind, hcall⟩, (List.getElem?_eq_some_iff.mp hi).1, rfl⟩, hi, Prod.ext h₁ h₂⟩
    · rintro (⟨i, function, tail, port, ⟨⟨hkind, hcall⟩, -, rfl⟩, hi, rfl⟩ | ⟨htab, -⟩)
      · simp only [outputs, hkind, hcall]
        exact mem_outputVariables_iff.mpr ⟨i, port, hi, rfl, rfl⟩
      · exact absurd htab hk

namespace Plan

variable {f : Flow}

theorem eq_of_name {p q : Placed} (hp : p ∈ (ofFlow f).nodes) (hq : q ∈ (ofFlow f).nodes)
    (h : p.name = q.name) : p = q := by
  have hpn := name_eq_getElem? hp
  have hqn := name_eq_getElem? hq
  have hlt := (List.getElem?_eq_some_iff.mp hpn).1
  exact eq_of_place hp hq
    ((List.getElem?_inj hlt (nodeNames_nodup f.liveNodes)).mp (by rw [hpn, hqn, h]))

theorem rows_at {q : Placed} (hq : q ∈ (ofFlow f).nodes) (hk : q.node.kind.isTabular = true) :
    (ofFlow f).collected.rows.lookup q.place = q.rows? := by
  have hrows : (ofFlow f).collected.rows = (ofFlow f).nodes.flatMap Placed.rows := by
    rw [ofFlow_collected, collect_rows]
  have hentry : ∀ {rows}, (q.place, rows) ∈ (ofFlow f).collected.rows ↔ q.rows? = some rows := by
    intro rows
    rw [hrows, List.mem_flatMap]
    constructor
    · rintro ⟨p, hp, hmem⟩
      unfold Placed.rows at hmem
      split at hmem
      · obtain ⟨rows', hrows', heq⟩ : ∃ rows', p.rows? = some rows' ∧
            (p.place, rows') = (q.place, rows) := by simpa using hmem
        obtain ⟨hplace, rfl⟩ := Prod.mk.inj heq
        rwa [eq_of_place hp hq hplace] at hrows'
      · cases hmem
    · intro h
      exact ⟨q, hq, by simp [Placed.rows, hk, h]⟩
  cases h : q.rows? with
  | none =>
    rw [List.lookup_eq_none_iff]
    intro entry hmem
    rw [bne_iff_ne]
    intro hplace
    have heq : entry = (q.place, entry.2) := Prod.ext hplace.symm rfl
    rw [heq, hentry, h] at hmem
    cases hmem
  | some rows =>
    refine lookup_eq_some_of_unique (hentry.mpr h) ?_
    intro rows' hmem
    exact (Option.some.inj (h.symm.trans (hentry.mp hmem))).symm

theorem outputIds_nodup (hports : (f.liveNodes.flatMap (fun n => n.ports.map (·.id))).Nodup)
    {q : Placed} (hq : q ∈ (ofFlow f).nodes) : (q.node.outputPorts.map (·.id)).Nodup := by
  have hnode : q.node ∈ f.liveNodes := List.mem_of_getElem? (node_at hq)
  have h := (List.nodup_flatMap.mp hports).1 q.node hnode
  rw [Node.ports, List.map_append] at h
  exact (List.nodup_append.mp h).2.1

theorem output_unique (hports : (f.liveNodes.flatMap (fun n => n.ports.map (·.id))).Nodup)
    {q : Placed} (hq : q ∈ (ofFlow f).nodes) {port v w : String} (hv : (port, v) ∈ q.outputs)
    (hw : (port, w) ∈ q.outputs) : v = w := by
  have hnodup := outputIds_nodup hports hq
  rw [Placed.mem_outputs_iff] at hv hw
  obtain ⟨i, F, X, o, hout, hi, hv⟩ | ⟨htab, o, rest, -, hv⟩ := hv <;>
    obtain ⟨j, G, Y, o', hout', hj, hw⟩ | ⟨htab', o', rest', -, hw⟩ := hw
  · obtain ⟨hport, rfl⟩ := Prod.mk.inj hv
    obtain ⟨hport', rfl⟩ := Prod.mk.inj hw
    have hpi : (q.node.outputPorts.map (·.id))[i]? = some port := by simp [hi, hport]
    have hpj : (q.node.outputPorts.map (·.id))[j]? = some port := by simp [hj, hport']
    have hij : i = j := by
      refine (List.getElem?_inj ?_ hnodup).mp (hpi.trans hpj.symm)
      simpa using hout.lt
    have hFG : F = G := Option.some.inj (hout.calls.2.symm.trans hout'.calls.2)
    rw [hout.tail_eq, hout'.tail_eq, hij, hFG]
  · rw [hout.calls.1] at htab'
    cases htab'
  · rw [hout'.calls.1] at htab
    cases htab
  · exact (Prod.mk.inj hv).2.trans (Prod.mk.inj hw).2.symm

/-- The table holds the outputs of the nodes and nothing else. -/
theorem valueOf?_eq_some_iff (hids : (f.liveNodes.map (·.id)).Nodup)
    (hports : (f.liveNodes.flatMap (fun n => n.ports.map (·.id))).Nodup) {id port v : String} :
    (ofFlow f).collected.valueOf? id port = some v ↔
      ∃ q ∈ (ofFlow f).nodes, q.node.id = id ∧ (port, v) ∈ q.outputs := by
  constructor
  · exact valueOf?_cases
  · rintro ⟨q, hq, rfl, hout⟩
    obtain ⟨w, hw⟩ := exists_valueOf? hq hout
    obtain ⟨q', hq', hid, hout'⟩ := valueOf?_cases hw
    rw [eq_of_id hids hq' hq hid] at hout'
    rw [hw, output_unique hports hq hout' hout]

theorem calledFunction?_eq_some_iff {p : Placed} (hp : p ∈ (ofFlow f).nodes) {function : String} :
    calledFunction? (ofFlow f).collected p = some function ↔ p.Calls function := by
  unfold calledFunction? Placed.Calls
  cases hk : p.node.kind with
  | function => simp [call_at hp hk]
  | csvInput => simp
  | excelInput => simp
  | subFlow => simp
  | output => simp
  | other name => simp

theorem mem_helperNames_iff {p : Placed} (hp : p ∈ (ofFlow f).nodes) {v : String} :
    v ∈ helperNames (ofFlow f).collected p ↔
      (p.HasRows ∧ v = tableVariable p.name ++ "_json_data_str") ∨
        (p.Shows ∧ v = sinkVariable p.name) := by
  have hrows : p.node.kind.isTabular = true →
      (ofFlow f).collected.rows.lookup p.place = p.rows? := rows_at hp
  unfold helperNames Placed.HasRows Placed.Shows
  cases hk : p.node.kind with
  | csvInput =>
    rw [hrows (by simp [hk, NodeKind.isTabular])]
    by_cases h : p.rows?.isSome = true <;> simp [NodeKind.isTabular, h]
  | excelInput =>
    rw [hrows (by simp [hk, NodeKind.isTabular])]
    by_cases h : p.rows?.isSome = true <;> simp [NodeKind.isTabular, h]
  | output =>
    by_cases h : p.node.inputPorts = [] <;> simp [NodeKind.isTabular, h]
  | function => simp [NodeKind.isTabular]
  | subFlow => simp [NodeKind.isTabular]
  | other name => simp [NodeKind.isTabular]

/-- The block of a function node assigns the outputs of its call. -/
theorem mem_blockNames_of_function (hids : (f.liveNodes.map (·.id)).Nodup)
    (hports : (f.liveNodes.flatMap (fun n => n.ports.map (·.id))).Nodup) {q : Placed}
    (hq : q ∈ (ofFlow f).nodes) (hk : q.node.kind = .function) {v : String} :
    v ∈ blockNames (ofFlow f).collected q ↔
      ∃ i function tail, q.HasOutput i function tail ∧ v = function ++ "_output_" ++ tail := by
  simp only [blockNames, hk, call_at hq hk, Option.getD_some]
  cases hcall : q.call? with
  | none =>
    simp only [List.not_mem_nil, false_iff]
    rintro ⟨i, function, tail, hout, -⟩
    rw [hout.calls.2] at hcall
    cases hcall
  | some function =>
    have hvalue : ∀ {i : Nat} {o : Port}, q.node.outputPorts[i]? = some o →
        (ofFlow f).collected.valueOf? q.node.id o.id = some
          (function ++ "_output_" ++ outputTail q.node.outputPorts.length i q.name) ∧
        q.HasOutput i function (outputTail q.node.outputPorts.length i q.name) := by
      intro i o hi
      have hout : q.HasOutput i function (outputTail q.node.outputPorts.length i q.name) :=
        ⟨⟨hk, hcall⟩, (List.getElem?_eq_some_iff.mp hi).1, rfl⟩
      exact ⟨(valueOf?_eq_some_iff hids hports).mpr ⟨q, hq, rfl,
        Placed.mem_outputs_iff.mpr (Or.inl ⟨i, function, _, o, hout, hi, rfl⟩)⟩, hout⟩
    rw [List.mem_map]
    constructor
    · rintro ⟨o, ho, rfl⟩
      obtain ⟨i, hi⟩ := List.mem_iff_getElem?.mp ho
      obtain ⟨hv, hout⟩ := hvalue hi
      exact ⟨i, function, _, hout, by rw [hv, Option.getD_some]⟩
    · rintro ⟨i, function', tail, ⟨⟨-, hcall'⟩, hlt, rfl⟩, rfl⟩
      obtain rfl : function = function' := Option.some.inj (hcall.symm.trans hcall')
      have hi := List.getElem?_eq_getElem hlt
      exact ⟨_, List.getElem_mem hlt, by rw [(hvalue hi).1, Option.getD_some]⟩

/-- The names that a block assigns, told by what its node has. -/
theorem mem_blockNames_iff (hids : (f.liveNodes.map (·.id)).Nodup)
    (hports : (f.liveNodes.flatMap (fun n => n.ports.map (·.id))).Nodup) {q : Placed}
    (hq : q ∈ (ofFlow f).nodes) {v : String} :
    v ∈ blockNames (ofFlow f).collected q ↔
      (∃ i function tail, q.HasOutput i function tail ∧ v = function ++ "_output_" ++ tail) ∨
      (q.node.kind.isTabular = true ∧ v = tableVariable q.name) ∨
      (q.HasRows ∧ v = tableVariable q.name ++ "_json_data_str") ∨
      (q.Shows ∧ (v = sinkVariable q.name ∨ v = "buf" ∨ v = "img_str")) := by
  have hhelper := mem_helperNames_iff hq (v := v)
  have hcalls : q.node.kind ≠ .function → ∀ i function tail, ¬ q.HasOutput i function tail :=
    fun hk i function tail hout => hk hout.calls.1
  cases hk : q.node.kind with
  | function =>
    rw [mem_blockNames_of_function hids hports hq hk]
    simp [Placed.HasRows, Placed.Shows, hk, NodeKind.isTabular]
  | csvInput =>
    have hshows : ¬ q.Shows := by simp [Placed.Shows, hk]
    simp only [hshows, false_and, or_false] at hhelper
    simp [blockNames, hk, hhelper, hcalls, NodeKind.isTabular, hshows]
  | excelInput =>
    have hshows : ¬ q.Shows := by simp [Placed.Shows, hk]
    simp only [hshows, false_and, or_false] at hhelper
    simp [blockNames, hk, hhelper, hcalls, NodeKind.isTabular, hshows]
  | output =>
    have hrows : ¬ q.HasRows := by simp [Placed.HasRows, hk, NodeKind.isTabular]
    simp only [hrows, false_and, false_or] at hhelper
    by_cases hin : q.node.inputPorts = []
    · simp [blockNames, hk, hcalls, NodeKind.isTabular, hrows, Placed.Shows, hin]
    · have hshows : q.Shows := ⟨hk, hin⟩
      simp [blockNames, hk, hhelper, hcalls, NodeKind.isTabular, hrows, hshows, hin]
  | subFlow => simp [blockNames, hk, hcalls, NodeKind.isTabular, Placed.HasRows, Placed.Shows]
  | other name => simp [blockNames, hk, hcalls, NodeKind.isTabular, Placed.HasRows, Placed.Shows]

end Plan

/-! ## When names are hygienic -/

namespace Placed

theorem HasOutput.exists_mem_outputs {p : Placed} {i : Nat} {function tail : String}
    (h : p.HasOutput i function tail) :
    ∃ port, (port, function ++ "_output_" ++ tail) ∈ p.outputs :=
  ⟨_, mem_outputs_iff.mpr
    (Or.inl ⟨i, function, tail, _, h, List.getElem?_eq_getElem h.lt, rfl⟩)⟩

theorem HasTable.exists_mem_outputs {p : Placed} (h : p.HasTable) :
    ∃ port, (port, tableVariable p.name) ∈ p.outputs := by
  obtain ⟨port, rest, hports⟩ := List.exists_cons_of_ne_nil h.2
  exact ⟨_, mem_outputs_iff.mpr (Or.inr ⟨h.1, port, rest, hports, rfl⟩)⟩

end Placed

section Equivalence

variable {f : Flow} (hids : (f.liveNodes.map (·.id)).Nodup)
  (hports : (f.liveNodes.flatMap (fun n => n.ports.map (·.id))).Nodup)

include hids hports

theorem Hygienic.eq_of_output (h : Hygienic f (Plan.ofFlow f))
    {p q : Placed} (hp : p ∈ (Plan.ofFlow f).nodes) (hq : q ∈ (Plan.ofFlow f).nodes)
    {port port' v : String} (hv : (port, v) ∈ p.outputs) (hv' : (port', v) ∈ q.outputs) : p = q := by
  have hvalue := (Plan.valueOf?_eq_some_iff hids hports).mpr ⟨p, hp, rfl, hv⟩
  have hvalue' := (Plan.valueOf?_eq_some_iff hids hports).mpr ⟨q, hq, rfl, hv'⟩
  exact Plan.eq_of_id hids hp hq (h.ports _ _ _ _ v hvalue hvalue').1

theorem Hygienic.not_helper (h : Hygienic f (Plan.ofFlow f))
    {p q : Placed} (hp : p ∈ (Plan.ofFlow f).nodes) (hq : q ∈ (Plan.ofFlow f).nodes)
    {port v : String} (hv : (port, v) ∈ p.outputs) :
    ¬ (q.HasRows ∧ v = tableVariable q.name ++ "_json_data_str") ∧
      ¬ (q.Shows ∧ v = sinkVariable q.name) := by
  have hvalue := (Plan.valueOf?_eq_some_iff hids hports).mpr ⟨p, hp, rfl, hv⟩
  have hnot := h.helpers _ _ v hvalue q hq
  rw [Plan.mem_helperNames_iff hq] at hnot
  exact not_or.mp hnot

theorem Hygienic.untangled (h : Hygienic f (Plan.ofFlow f)) :
    Untangled (Plan.ofFlow f).nodes where
  numbered := by
    intro p hp q hq function hcp hcq hone hmany j hj hname
    have hout : p.HasOutput 0 function p.name := ⟨hcp, by omega, by simp [outputTail, hone]⟩
    have hout' : q.HasOutput j function p.name :=
      ⟨hcq, hj, by rw [outputTail, if_neg hmany, hname]⟩
    obtain ⟨port, hv⟩ := hout.exists_mem_outputs
    obtain ⟨port', hv'⟩ := hout'.exists_mem_outputs
    have heq := h.eq_of_output hids hports hp hq hv hv'
    exact hmany (heq ▸ hone)
  outputs := by
    intro p hp q hq i j function tail function' tail' hout hout' hover
    obtain ⟨port, hv⟩ := hout.exists_mem_outputs
    obtain ⟨port', hv'⟩ := hout'.exists_mem_outputs
    rw [hover.eq] at hv'
    -- one variable means one node, and a node does not overlap itself
    have heq := h.eq_of_output hids hports hp hq hv hv'
    subst heq
    have hfun : function = function' := Option.some.inj (hout.calls.2.symm.trans hout'.calls.2)
    subst hfun
    exact not_overlaps_self hover
  tables := by
    intro p hp q hq i function tail hout htable hover
    obtain ⟨port, hv⟩ := hout.exists_mem_outputs
    obtain ⟨port', hv'⟩ := htable.exists_mem_outputs
    rw [overlaps_table_iff.mp hover] at hv
    have heq := h.eq_of_output hids hports hp hq hv hv'
    subst heq
    -- no node both calls a function and holds a table
    have hkind := htable.1
    rw [hout.calls.1] at hkind
    cases hkind
  rows := by
    intro p hp q hq i function tail hout hrows hover
    obtain ⟨port, hv⟩ := hout.exists_mem_outputs
    refine (h.not_helper hids hports hp hq hv).1 ⟨hrows, ?_⟩
    rw [overlaps_table_iff.mp hover, tableVariable, tableVariable, String.append_assoc]
  tableRows := by
    intro p hp q hq htable hrows hname
    obtain ⟨port, hv⟩ := htable.exists_mem_outputs
    refine (h.not_helper hids hports hp hq hv).1 ⟨hrows, ?_⟩
    rw [tableVariable, tableVariable, hname, String.append_assoc]
  shown := by
    intro p hp q hq i function tail hout hshows hover
    obtain ⟨port, hv⟩ := hout.exists_mem_outputs
    exact (h.not_helper hids hports hp hq hv).2 ⟨hshows, overlaps_sink_iff.mp hover⟩
  functions := by
    intro p hp function hcalls
    obtain ⟨hdriver, hnames⟩ :=
      h.functions p hp function ((Plan.calledFunction?_eq_some_iff hp).mpr hcalls)
    refine ⟨hdriver, ?_⟩
    intro q hq
    have hnot : function ∉ blockNames (Plan.ofFlow f).collected q := by
      intro hmem
      obtain ⟨line, hline, ht⟩ := (Plan.exists_targets_iff hq).mpr hmem
      exact hnames q hq line hline ht
    rw [Plan.mem_blockNames_iff hids hports hq] at hnot
    push Not at hnot
    exact ⟨hnot.1, hnot.2.1, hnot.2.2.1, hnot.2.2.2⟩

omit hids hports

theorem tableVariable_inj {name name' : String} :
    tableVariable name = tableVariable name' ↔ name = name' :=
  String.append_right_inj _

theorem tableVariable_ne_sinkVariable (name name' : String) :
    tableVariable name ≠ sinkVariable name' := by
  intro h
  have hstart : ("df_" ++ name).toList.head? = ("output_value_for_" ++ name').toList.head? :=
    congrArg (fun s : String => s.toList.head?) h
  simp at hstart

/-- Without overlaps, outputs of one variable are one output. -/
theorem Untangled.output_inj (h : Untangled (Plan.ofFlow f).nodes) {p q : Placed}
    (hp : p ∈ (Plan.ofFlow f).nodes) (hq : q ∈ (Plan.ofFlow f).nodes) {i j : Nat}
    {function tail function' tail' : String} (hout : p.HasOutput i function tail)
    (hout' : q.HasOutput j function' tail')
    (heq : function ++ "_output_" ++ tail = function' ++ "_output_" ++ tail') :
    p = q ∧ i = j := by
  -- the functions are the same, or one variable reads as an output of the other function
  rcases output_eq_cases heq with ⟨hfun, htail⟩ | hover | hover
  · subst hfun
    rw [hout.tail_eq, hout'.tail_eq] at htail
    rcases outputTail_eq_cases htail with ⟨hone, hnum, hname⟩ | ⟨hone, hmany, hname⟩ |
      ⟨hone, hmany, hname⟩
    · obtain rfl := Plan.eq_of_name hp hq hname
      refine ⟨rfl, ?_⟩
      by_cases hlen : p.node.outputPorts.length = 1
      · have := hout.lt
        have := hout'.lt
        omega
      · exact hnum hlen
    · exact absurd hname (h.numbered p hp q hq _ hout.calls hout'.calls hone hmany j hout'.lt)
    · exact absurd hname (h.numbered q hq p hp _ hout'.calls hout.calls hone hmany i hout.lt)
  · exact absurd hover (h.outputs p hp q hq i j _ _ _ _ hout hout')
  · exact absurd hover (h.outputs q hq p hp j i _ _ _ _ hout' hout)

include hids hports

theorem Untangled.hygienic (h : Untangled (Plan.ofFlow f).nodes) :
    Hygienic f (Plan.ofFlow f) where
  ports := by
    intro id port id' port' v hv hv'
    obtain ⟨p, hp, rfl, hmem⟩ := Plan.valueOf?_cases hv
    obtain ⟨q, hq, rfl, hmem'⟩ := Plan.valueOf?_cases hv'
    rw [Placed.mem_outputs_iff] at hmem hmem'
    -- each of the two ports belongs to a call or to a table
    rcases hmem with ⟨i, F, X, o, hout, hi, ho⟩ | ⟨htab, o, rest, hrest, ho⟩ <;>
      rcases hmem' with ⟨j, G, Y, o', hout', hj, ho'⟩ | ⟨htab', o', rest', hrest', ho'⟩ <;>
      obtain ⟨rfl, hvar⟩ := Prod.mk.inj ho <;>
      obtain ⟨rfl, hvar'⟩ := Prod.mk.inj ho'
    · obtain ⟨rfl, rfl⟩ := h.output_inj hp hq hout hout' (hvar.symm.trans hvar')
      rw [Option.some.inj (hi.symm.trans hj)]
      exact ⟨rfl, rfl⟩
    · have htable : q.HasTable := ⟨htab', by simp [hrest']⟩
      exact absurd (overlaps_table_iff.mpr (hvar.symm.trans hvar'))
        (h.tables p hp q hq i F X hout htable)
    · have htable : p.HasTable := ⟨htab, by simp [hrest]⟩
      exact absurd (overlaps_table_iff.mpr (hvar'.symm.trans hvar))
        (h.tables q hq p hp j G Y hout' htable)
    · obtain rfl := Plan.eq_of_name hp hq (tableVariable_inj.mp (hvar.symm.trans hvar'))
      rw [(List.cons.inj (hrest.symm.trans hrest')).1]
      exact ⟨rfl, rfl⟩
  helpers := by
    intro id port v hv q hq hhelper
    obtain ⟨p, hp, rfl, hmem⟩ := Plan.valueOf?_cases hv
    rw [Placed.mem_outputs_iff] at hmem
    rw [Plan.mem_helperNames_iff hq] at hhelper
    have hrows : tableVariable q.name ++ "_json_data_str" =
        tableVariable (q.name ++ "_json_data_str") := String.append_assoc
    rcases hmem with ⟨i, F, X, o, hout, -, ho⟩ | ⟨htab, o, rest, hrest, ho⟩ <;>
      obtain ⟨-, rfl⟩ := Prod.mk.inj ho <;>
      rcases hhelper with ⟨hr, heq⟩ | ⟨hs, heq⟩
    · exact h.rows p hp q hq i F X hout hr (overlaps_table_iff.mpr (heq.trans hrows))
    · exact h.shown p hp q hq i F X hout hs (overlaps_sink_iff.mpr heq)
    · exact h.tableRows p hp q hq ⟨htab, by simp [hrest]⟩ hr
        (tableVariable_inj.mp (heq.trans hrows))
    · exact tableVariable_ne_sinkVariable _ _ heq
  functions := by
    intro p hp function hcalled
    obtain ⟨hdriver, hnames⟩ :=
      h.functions p hp function ((Plan.calledFunction?_eq_some_iff hp).mp hcalled)
    refine ⟨hdriver, ?_⟩
    intro q hq line hline ht
    have hmem : function ∈ blockNames (Plan.ofFlow f).collected q :=
      (Plan.exists_targets_iff hq).mp ⟨line, hline, ht⟩
    obtain ⟨houtputs, htable, hrows, hshown⟩ := hnames q hq
    rcases (Plan.mem_blockNames_iff hids hports hq).mp hmem with
      ⟨i, F, X, hout, heq⟩ | ⟨htab, heq⟩ | ⟨hr, heq⟩ | ⟨hs, heq | heq | heq⟩
    · exact houtputs i F X hout heq
    · exact htable htab heq
    · exact hrows hr heq
    · exact (hshown hs).1 heq
    · exact (hshown hs).2.1 heq
    · exact (hshown hs).2.2 heq

omit hids hports

/-- Where all nodes call one function, only numbers can get in the way. -/
theorem untangled_of_one_function {nodes : List Placed} {function : String}
    (hcalls : ∀ p ∈ nodes, p.Calls function) (hdriver : function ≠ "run_flow")
    (hnumbered : ∀ p ∈ nodes, ∀ q ∈ nodes, p.node.outputPorts.length = 1 →
      q.node.outputPorts.length ≠ 1 → ∀ j < q.node.outputPorts.length,
        p.name ≠ toString j ++ "_" ++ q.name) : Untangled nodes := by
  have hfun : ∀ p ∈ nodes, ∀ other, p.Calls other → other = function := by
    intro p hp other hother
    exact Option.some.inj (hother.2.symm.trans (hcalls p hp).2)
  have htab : ∀ p ∈ nodes, ¬ p.node.kind.isTabular = true := by
    intro p hp
    rw [(hcalls p hp).1]
    simp [NodeKind.isTabular]
  have hshows : ∀ p ∈ nodes, ¬ p.Shows := by
    intro p hp hshow
    cases (hcalls p hp).1.symm.trans hshow.1
  refine ⟨?_, ?_, ?_, ?_, ?_, ?_, ?_⟩
  · intro p hp q hq _ _ _ hone hmany j hj
    exact hnumbered p hp q hq hone hmany j hj
  · intro p hp q hq i j F X G Y hout hout'
    rw [hfun p hp F hout.calls, hfun q hq G hout'.calls]
    exact not_overlaps_self
  · intro p hp q hq i F X _ htable
    exact absurd htable.1 (htab q hq)
  · intro p hp q hq i F X _ hrows
    exact absurd hrows.1 (htab q hq)
  · intro p hp q hq htable
    exact absurd htable.1 (htab p hp)
  · intro p hp q hq i F X _ hshow
    exact absurd hshow (hshows q hq)
  · intro p hp F hF
    rw [hfun p hp F hF]
    refine ⟨hdriver, ?_⟩
    intro q hq
    refine ⟨?_, fun h => absurd h (htab q hq), fun h => absurd h.1 (htab q hq),
      fun h => absurd h (hshows q hq)⟩
    intro i G X hout heq
    rw [hfun q hq G hout.calls, String.append_assoc] at heq
    have hlength := congrArg (fun s : String => s.toList.length) heq
    simp at hlength

end Equivalence

end Script

open Script

/-- In a flow whose nodes have different ids and whose ports have different ids, the names in the
driver are hygienic exactly when no two compositions of functions, fixed parts, numbers and node
names give one text. -/
theorem hygienic_iff_untangled (f : Flow) (hids : (f.liveNodes.map (·.id)).Nodup)
    (hports : (f.liveNodes.flatMap (fun n => n.ports.map (·.id))).Nodup) :
    Hygienic f (Plan.ofFlow f) ↔ Untangled (Plan.ofFlow f).nodes :=
  ⟨Hygienic.untangled hids hports, Untangled.hygienic hids hports⟩

/-- A node that calls `f` and has output ports with the given ids. -/
def callOf (id : String) (outputs : List String) : Node :=
  { id := id, kind := .function, name := id
    outputs := outputs.map (fun port => some { id := port, nodeId := id, direction := .output })
    payload := some (.function { code := "def f():\n    return [1, 2]" }) }

/-- Two calls of one function, the first with two outputs. -/
def tidyFlow : Flow :=
  { nodes := [some (callOf "x" ["q", "r"]), some (callOf "y" ["p"])] }

/-- The two calls have names of their own. -/
theorem tidyFlow_hygienic :
    (tidyFlow.liveNodes.map (·.id)).Nodup ∧
    (tidyFlow.liveNodes.flatMap (fun n => n.ports.map (·.id))).Nodup ∧
    Hygienic tidyFlow (Plan.ofFlow tidyFlow) := by
  have hids : (tidyFlow.liveNodes.map (·.id)).Nodup := by decide
  have hports : (tidyFlow.liveNodes.flatMap (fun n => n.ports.map (·.id))).Nodup := by decide
  have hnodes : (Plan.ofFlow tidyFlow).nodes =
      [⟨0, "x", callOf "x" ["q", "r"]⟩, ⟨1, "y", callOf "y" ["p"]⟩] := rfl
  refine ⟨hids, hports, (hygienic_iff_untangled tidyFlow hids hports).mpr ?_⟩
  rw [hnodes]
  refine untangled_of_one_function (?_ : ∀ p ∈ _, Placed.Calls p "f") (by decide) ?_
  · intro p hp
    rcases List.mem_pair.mp hp with rfl | rfl
    · exact ⟨rfl, by decide +kernel⟩
    · exact ⟨rfl, by decide +kernel⟩
  · intro p hp q hq
    rcases List.mem_pair.mp hp with rfl | rfl <;> rcases List.mem_pair.mp hq with rfl | rfl <;>
      decide +kernel

/-- Two calls of one function, the second with two outputs, and an output node that shows the only
output of the first. -/
def tangledFlow : Flow :=
  { nodes := [some (callOf "0_x" ["p"]), some (callOf "x" ["q", "r"]),
      some { id := "s", kind := .output, name := "s"
             inputs := [some { id := "i", nodeId := "s", direction := .input }] }]
    connections := [some ⟨"c", "0_x", "p", "s", "i"⟩] }

/-- The only output of the first call and the first output of the second have one variable. -/
theorem tangledFlow_not_hygienic :
    (tangledFlow.liveNodes.map (·.id)).Nodup ∧
    (tangledFlow.liveNodes.flatMap (fun n => n.ports.map (·.id))).Nodup ∧
    ¬ Hygienic tangledFlow (Plan.ofFlow tangledFlow) := by
  refine ⟨by decide, by decide, ?_⟩
  intro h
  have hp : (Plan.ofFlow tangledFlow).collected.valueOf? "0_x" "p" = some "f_output_0_x" := by
    decide +kernel
  have hq : (Plan.ofFlow tangledFlow).collected.valueOf? "x" "q" = some "f_output_0_x" := by
    decide +kernel
  have heq := (h.ports _ _ _ _ _ hp hq).1
  simp at heq

end FlowScript
