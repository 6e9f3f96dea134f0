import FlowScript.Proofs.Script.Names
import FlowScript.Proofs.Script.Plan

/-!
# The variables that blocks assign

The table of variables holds, for every output port that has a value, a variable that the block of
its node assigns. When the ids of the nodes differ, an entry of the table comes from the one node
with that id, also when port ids are repeated.

## Main definitions

- `Assigns` — a line of the driver assigns a variable
- `AssignedIn` — one of some blocks has a line that assigns a variable

## Main results

- `Plan.valueOf?_cases` — a variable of the table is among the outputs of a node
- `Plan.assigns_of_valueOf?` — the block of that node assigns it
-/

namespace FlowScript

namespace Script

/-- A line of the driver assigns `v`: it names one or more variables, `v` among them, in front of an
equals sign. -/
def Assigns (line v : String) : Prop :=
  ∃ targets value, line = indent ++ String.intercalate ", " targets ++ " = " ++ value ∧
    v ∈ targets ∧ ∀ t ∈ targets, IsIdentifier t

/-- One of the given blocks has a line that assigns `v`. -/
def AssignedIn (f : Flow) (c : Collected) (blocks : List Placed) (v : String) : Prop :=
  ∃ q ∈ blocks, ∃ line ∈ lines (block f c q), Assigns line v

/-! ## Lines of a block -/

/-- An indented line has the lines it had, each of them indented unless it is empty. -/
theorem lines_indented (line : String) :
    lines (indented line) =
      (lines line).map (fun part => if part.isEmpty then "" else indent ++ part) := by
  have hne : (lines line).map (fun part => if part.isEmpty then "" else indent ++ part) ≠ [] := by
    simpa using lines_ne_nil line
  have hone : ∀ part ∈ lines line,
      lines (if part.isEmpty then "" else indent ++ part) =
        [if part.isEmpty then "" else indent ++ part] := by
    intro part hpart
    refine lines_of_oneLine ?_
    split
    · simp [OneLine]
    · exact OneLine.append (by simp [OneLine, indent]) (oneLine_of_mem_lines hpart)
  rw [indented, lines_intercalate hne, List.flatMap_map, List.flatMap_congr hone,
    List.map_eq_flatMap]

/-- A line of the body of a node that starts on one line with `front` gives a line of the block. -/
theorem exists_line_of_mem_bodyLines {f : Flow} {c : Collected} {p : Placed} {front rest : String}
    (hone : OneLine front) (hne : front ≠ "") (h : front ++ rest ∈ bodyLines f c p) :
    ∃ value, indent ++ front ++ value ∈ lines (block f c p) := by
  -- what follows may run over several lines, but it starts on the line of `front`
  obtain ⟨first, others, hlines⟩ := List.exists_cons_of_ne_nil (lines_ne_nil rest)
  have hfirst : lines (front ++ rest) = (front ++ first) :: others :=
    lines_append_of_free hone hlines
  refine ⟨first, ?_⟩
  unfold block
  rw [lines_intercalate (by simp), List.mem_flatMap]
  refine ⟨indented (front ++ rest), List.mem_map_of_mem (by simp [h]), ?_⟩
  rw [lines_indented, hfirst, List.map_cons]
  have hfull : (front ++ first).isEmpty = false := by
    simpa [String.isEmpty_iff] using fun h => absurd h hne
  rw [hfull, String.append_assoc]
  exact List.mem_cons_self

/-- A line of the body that names identifiers in front of an equals sign assigns them. -/
theorem assigns_of_mem_bodyLines {f : Flow} {c : Collected} {p : Placed} {targets : List String}
    {value v : String} (ht : ∀ t ∈ targets, IsIdentifier t) (hv : v ∈ targets)
    (h : String.intercalate ", " targets ++ " = " ++ value ∈ bodyLines f c p) :
    ∃ line ∈ lines (block f c p), Assigns line v := by
  have hone : OneLine (String.intercalate ", " targets ++ " = ") := by
    refine OneLine.append ?_ (by simp [OneLine])
    clear hv h
    induction targets with
    | nil => simp [OneLine]
    | cons t rest ih =>
      have ht' := (ht t List.mem_cons_self).word.oneLine
      by_cases hr : rest = []
      · simpa [hr] using ht'
      · rw [String.intercalate_cons_of_ne_nil hr]
        exact (ht'.append (by simp [OneLine])).append
          (ih (fun u hu => ht u (List.mem_cons_of_mem t hu)))
  have hne : String.intercalate ", " targets ++ " = " ≠ "" := by
    simp
  obtain ⟨rest, hline⟩ := exists_line_of_mem_bodyLines hone hne h
  exact ⟨_, hline, targets, rest, by simp only [String.append_assoc], hv, ht⟩

/-- A call starts with its function and an opening bracket. -/
theorem exists_callText_eq (function : String) (args : List Argument) :
    ∃ first rest, callText function args = (function ++ "(" ++ first) :: rest := by
  unfold callText
  split
  · exact ⟨_, _, by rw [String.append_assoc]⟩
  · exact ⟨"", _, by rw [String.append_empty]⟩

/-! ## Outputs of a node -/

/-- What follows the function in the variable of output `i` of a call with `count` outputs. -/
def outputTail (count i : Nat) (name : String) : String :=
  if count = 1 then name else toString i ++ "_" ++ name

theorem isWord_outputTail (count i : Nat) {name : String} (h : IsWord name) :
    IsWord (outputTail count i name) := by
  unfold outputTail
  split
  · exact h
  · exact ((isWord_toString i).append (by simp [IsWord, isWordChar])).append h

/-- The variables of the outputs of a call, with one rule for single and for several outputs. -/
theorem outputVariables_eq (function name : String) (ports : List Port) :
    outputVariables function name ports =
      ports.mapIdx (fun i p => (p.id, function ++ "_output_" ++ outputTail ports.length i name)) := by
  unfold outputVariables
  split
  · rfl
  · next hmany =>
    have hcount : ports.length ≠ 1 := by
      intro h
      obtain ⟨port, hport⟩ := List.length_eq_one_iff.mp h
      exact hmany port hport
    simp only [outputTail, hcount, if_false, String.append_assoc]

theorem mem_outputVariables_iff {function name : String} {ports : List Port}
    {o : String × String} :
    o ∈ outputVariables function name ports ↔
      ∃ i port, ports[i]? = some port ∧ o.1 = port.id ∧
        o.2 = function ++ "_output_" ++ outputTail ports.length i name := by
  rw [outputVariables_eq, List.mem_mapIdx]
  constructor
  · rintro ⟨i, hi, rfl⟩
    exact ⟨i, ports[i], List.getElem?_eq_getElem hi, rfl, rfl⟩
  · rintro ⟨i, port, hport, h₁, h₂⟩
    obtain ⟨hi, rfl⟩ := List.getElem?_eq_some_iff.mp hport
    exact ⟨i, hi, Prod.ext h₁.symm h₂.symm⟩

namespace Placed

/-- The function that a node calls is named by an identifier. -/
theorem isIdentifier_of_call? {p : Placed} (hname : IsWord p.name) {function : String}
    (h : p.call? = some function) : IsIdentifier function := by
  have hdefault : IsIdentifier ("execute_default_" ++ p.name) := by
    refine IsIdentifier.append ⟨by simp [IsWord, isWordChar], 'e', _, rfl, by decide⟩ hname
  unfold call? at h
  split at h
  · cases h
  · split at h
    · cases h
    · obtain rfl := Option.some.inj h
      cases hfound : functionName? _ with
      | none => simpa using hdefault
      | some name => simpa using isIdentifier_of_functionName? hfound

theorem isIdentifier_tableVariable {name : String} (hname : IsWord name) :
    IsIdentifier (tableVariable name) :=
  IsIdentifier.append ⟨by simp [IsWord, isWordChar], 'd', _, rfl, by decide⟩ hname

theorem isIdentifier_of_mem_outputs {p : Placed} (hname : IsWord p.name) {o : String × String}
    (h : o ∈ p.outputs) : IsIdentifier o.2 := by
  have htable : p.node.kind.isTabular = true → IsIdentifier o.2 := by
    intro hk
    rw [outputs_of_tabular hk] at h
    split at h
    · cases h
    · rw [List.mem_singleton] at h
      rw [h]
      exact isIdentifier_tableVariable hname
  cases hk : p.node.kind with
  | function =>
    simp only [outputs, hk] at h
    cases hc : p.call? with
    | none => simp [hc] at h
    | some function =>
      have hf := isIdentifier_of_call? hname hc
      rw [hc] at h
      obtain ⟨i, -, -, -, ho⟩ := mem_outputVariables_iff.mp h
      rw [ho]
      exact (hf.append (by simp [IsWord, isWordChar])).append (isWord_outputTail _ i hname)
  | csvInput => exact htable (by simp [hk, NodeKind.isTabular])
  | excelInput => exact htable (by simp [hk, NodeKind.isTabular])
  | subFlow => simp [outputs, hk] at h
  | output => simp [outputs, hk] at h
  | other name => simp [outputs, hk] at h

end Placed

/-- A tabular input with rows assigns the text of its rows, and then its table. -/
theorem tableLines_of_rows {c : Collected} {p : Placed} {rows : List Char}
    (h : c.rows.lookup p.place = some rows) :
    ∃ value, tableLines c p =
      [tableVariable p.name ++ "_json_data_str" ++ " = " ++ value,
        tableVariable p.name ++ " = " ++
          ("pd.DataFrame(json.loads(" ++ (tableVariable p.name ++ "_json_data_str") ++ "))")] := by
  refine ⟨String.ofList (stringLiteral rows), ?_⟩
  have hfirst : "_json_data_str = " = "_json_data_str" ++ " = " := rfl
  have hsecond : " = pd.DataFrame(json.loads(" = " = " ++ "pd.DataFrame(json.loads(" := rfl
  have hthird : "_json_data_str))" = "_json_data_str" ++ "))" := rfl
  unfold tableLines
  simp only [h, hfirst, hsecond, hthird, String.append_assoc]

/-- A tabular input without rows only assigns its table. -/
theorem tableLines_of_no_rows {c : Collected} {p : Placed} (h : c.rows.lookup p.place = none) :
    ∃ value, tableLines c p = [tableVariable p.name ++ " = " ++ value] := by
  have hexcel : " = pd.read_excel(\"your_excel_file_path.xlsx\")" =
      " = " ++ "pd.read_excel(\"your_excel_file_path.xlsx\")" := rfl
  have hcsv : " = pd.read_csv(\"your_csv_file_path.csv\")" =
      " = " ++ "pd.read_csv(\"your_csv_file_path.csv\")" := rfl
  unfold tableLines
  simp only [h, hexcel, hcsv, String.append_assoc]
  split
  · exact ⟨_, rfl⟩
  · exact ⟨_, rfl⟩

/-- One line of a tabular input assigns its table, with or without rows. -/
theorem exists_assignment_of_table (c : Collected) (p : Placed) :
    ∃ value, tableVariable p.name ++ " = " ++ value ∈ tableLines c p := by
  cases hrows : c.rows.lookup p.place with
  | none =>
    obtain ⟨value, hlines⟩ := tableLines_of_no_rows hrows
    exact ⟨value, by simp [hlines]⟩
  | some rows =>
    obtain ⟨value, hlines⟩ := tableLines_of_rows hrows
    exact ⟨_, by rw [hlines]; exact List.mem_cons_of_mem _ List.mem_cons_self⟩

/-! ## The table of variables -/

theorem mem_of_lookup {α β : Type} [BEq α] [LawfulBEq α] {entries : List (α × β)} {k : α} {v : β}
    (h : entries.lookup k = some v) : (k, v) ∈ entries := by
  obtain ⟨before, after, rfl, -⟩ := List.lookup_eq_some_iff.mp h
  simp

/-- An entry with a key of its own is found under its key. -/
theorem lookup_eq_some_of_unique {α β : Type} [BEq α] [LawfulBEq α] {entries : List (α × β)} {k : α}
    {v : β} (h : (k, v) ∈ entries) (hunique : ∀ w, (k, w) ∈ entries → w = v) :
    entries.lookup k = some v := by
  have hsome : (entries.lookup k).isSome = true := by
    rw [List.lookup_isSome_iff]
    exact ⟨(k, v), h, by simp⟩
  obtain ⟨w, hw⟩ := Option.isSome_iff_exists.mp hsome
  rw [hw, hunique w (mem_of_lookup hw)]

namespace Plan

variable {f : Flow}

theorem name_eq_getElem? {p : Placed} (hp : p ∈ (ofFlow f).nodes) :
    (nodeNames f.liveNodes)[p.place]? = some p.name := by
  have hlt : p.place < (nodeNames f.liveNodes).length := by
    rw [nodeNames_length]
    exact (List.getElem?_eq_some_iff.mp (node_at hp)).1
  rw [name_at hp, List.getD_eq_getElem?_getD, List.getElem?_eq_getElem hlt, Option.getD_some]

theorem isWord_name {p : Placed} (hp : p ∈ (ofFlow f).nodes) : IsWord p.name :=
  isWord_of_mem_nodeNames (List.mem_of_getElem? (name_eq_getElem? hp))

/-- When the ids differ, a block is known by the id of its node. -/
theorem eq_of_id (hids : (f.liveNodes.map (·.id)).Nodup) {p q : Placed}
    (hp : p ∈ (ofFlow f).nodes) (hq : q ∈ (ofFlow f).nodes) (h : p.node.id = q.node.id) :
    p = q := by
  have hpn : (f.liveNodes.map (·.id))[p.place]? = some p.node.id := by simp [node_at hp]
  have hqn : (f.liveNodes.map (·.id))[q.place]? = some q.node.id := by simp [node_at hq]
  have hlt := (List.getElem?_eq_some_iff.mp hpn).1
  exact eq_of_place hp hq ((List.getElem?_inj hlt hids).mp (by rw [hpn, hqn, h]))

/-- A variable of the table is among the outputs of a node with the id. -/
theorem valueOf?_cases {id port v : String} (h : (ofFlow f).collected.valueOf? id port = some v) :
    ∃ q ∈ (ofFlow f).nodes, q.node.id = id ∧ (port, v) ∈ q.outputs := by
  have hmem := mem_of_lookup h
  rw [ofFlow_collected, collect_bindings, List.mem_reverse, List.mem_flatMap] at hmem
  obtain ⟨q, hq, hb⟩ := hmem
  obtain ⟨o, ho, heq⟩ := List.mem_map.mp hb
  obtain ⟨⟨rfl, rfl⟩, rfl⟩ : (q.node.id = id ∧ o.1 = port) ∧ o.2 = v := by simpa using heq
  exact ⟨q, hq, rfl, ho⟩

theorem isIdentifier_of_valueOf? {id port v : String}
    (h : (ofFlow f).collected.valueOf? id port = some v) : IsIdentifier v := by
  obtain ⟨q, hq, -, ho⟩ := valueOf?_cases h
  exact Placed.isIdentifier_of_mem_outputs (isWord_name hq) ho

/-- Every output of a node has a variable in the table. -/
theorem exists_valueOf? {q : Placed} (hq : q ∈ (ofFlow f).nodes) {o : String × String}
    (ho : o ∈ q.outputs) : ∃ v, (ofFlow f).collected.valueOf? q.node.id o.1 = some v := by
  have hmem : ((q.node.id, o.1), o.2) ∈ (ofFlow f).collected.bindings := by
    rw [ofFlow_collected, collect_bindings, List.mem_reverse, List.mem_flatMap]
    exact ⟨q, hq, List.mem_map_of_mem ho⟩
  have hsome : ((ofFlow f).collected.valueOf? q.node.id o.1).isSome = true := by
    rw [Collected.valueOf?, List.lookup_isSome_iff]
    exact ⟨_, hmem, by simp⟩
  exact Option.isSome_iff_exists.mp hsome

/-- The call of a function node is found under its place. -/
theorem call_at {q : Placed} (hq : q ∈ (ofFlow f).nodes) (hk : q.node.kind = .function) :
    (ofFlow f).collected.calls.lookup q.place = some q.call? := by
  have hcalls : (ofFlow f).collected.calls = (ofFlow f).nodes.flatMap Placed.calls := by
    rw [ofFlow_collected, collect_calls]
  have hown : q.calls = [(q.place, q.call?)] := by simp [Placed.calls, hk]
  refine lookup_eq_some_of_unique ?_ ?_
  · rw [hcalls, List.mem_flatMap]
    exact ⟨q, hq, by simp [hown]⟩
  · intro call hcall
    rw [hcalls, List.mem_flatMap] at hcall
    obtain ⟨p, hp, hmem⟩ := hcall
    have hplace : q.place = p.place ∧ call = p.call? := by
      unfold Placed.calls at hmem
      split at hmem
      · simpa using hmem
      · cases hmem
    rw [hplace.2, eq_of_place hp hq hplace.1.symm]

/-- The variables that a call assigns, one for each output port. -/
def targets (f : Flow) (q : Placed) : List String :=
  q.node.outputPorts.map (fun o => ((ofFlow f).collected.valueOf? q.node.id o.id).getD "")

theorem isIdentifier_of_mem_targets {q : Placed} (hq : q ∈ (ofFlow f).nodes)
    (hk : q.node.kind = .function) {function : String} (hcall : q.call? = some function) {t : String}
    (ht : t ∈ targets f q) : IsIdentifier t := by
  obtain ⟨o, hmem, rfl⟩ := List.mem_map.mp ht
  obtain ⟨i, hi⟩ := List.mem_iff_getElem?.mp hmem
  have hout : (o.id, function ++ "_output_"
      ++ outputTail q.node.outputPorts.length i q.name) ∈ q.outputs := by
    simp only [Placed.outputs, hk, hcall]
    exact mem_outputVariables_iff.mpr ⟨i, o, hi, rfl, rfl⟩
  -- another port may have the same id, so the table need not hold the name made for this one
  obtain ⟨w, hw⟩ := exists_valueOf? hq hout
  rw [hw, Option.getD_some]
  exact isIdentifier_of_valueOf? hw

theorem bodyLines_of_call {q : Placed} (hq : q ∈ (ofFlow f).nodes) (hk : q.node.kind = .function)
    {function : String} (hcall : q.call? = some function) :
    bodyLines f (ofFlow f).collected q = assigned (targets f q)
      (callText function (arguments false (wiredInputs f (ofFlow f).collected q.node))) := by
  simp only [bodyLines, hk, callLines, call_at hq hk, Option.getD_some, hcall, targets]

/-- The targets of a call are identifiers that the call of the node assigns. -/
theorem assigns_of_call {q : Placed} (hq : q ∈ (ofFlow f).nodes) (hk : q.node.kind = .function)
    {port v : String} (ho : (port, v) ∈ q.outputs)
    (hv : (ofFlow f).collected.valueOf? q.node.id port = some v) :
    ∃ line ∈ lines (block f (ofFlow f).collected q), Assigns line v := by
  cases hcall : q.call? with
  | none => simp [Placed.outputs, hk, hcall] at ho
  | some function =>
    have hmem : v ∈ targets f q := by
      simp only [Placed.outputs, hk, hcall] at ho
      obtain ⟨i, o, hi, rfl, -⟩ := mem_outputVariables_iff.mp ho
      exact List.mem_map.mpr ⟨o, List.mem_of_getElem? hi, by rw [hv, Option.getD_some]⟩
    obtain ⟨first, rest, hlines⟩ := exists_callText_eq function
      (arguments false (wiredInputs f (ofFlow f).collected q.node))
    have hbody : bodyLines f (ofFlow f).collected q =
        (String.intercalate ", " (targets f q) ++ " = " ++ (function ++ "(" ++ first)) :: rest := by
      have hne : ¬ (targets f q).isEmpty = true := by
        rw [List.isEmpty_iff]
        exact List.ne_nil_of_mem hmem
      rw [bodyLines_of_call hq hk hcall, hlines, assigned, if_neg hne]
    exact assigns_of_mem_bodyLines (fun t ht => isIdentifier_of_mem_targets hq hk hcall ht) hmem
      (hbody ▸ List.mem_cons_self)

/-- The block of a tabular input assigns its table, with or without rows. -/
theorem assigns_of_table {q : Placed} (hq : q ∈ (ofFlow f).nodes)
    (hk : q.node.kind.isTabular = true) :
    ∃ line ∈ lines (block f (ofFlow f).collected q), Assigns line (tableVariable q.name) := by
  have hbody : bodyLines f (ofFlow f).collected q = tableLines (ofFlow f).collected q := by
    unfold bodyLines
    cases hkind : q.node.kind <;> simp_all [NodeKind.isTabular]
  obtain ⟨value, hvalue⟩ := exists_assignment_of_table (ofFlow f).collected q
  have htargets : ∀ t ∈ [tableVariable q.name], IsIdentifier t := by
    simpa using Placed.isIdentifier_tableVariable (isWord_name hq)
  exact assigns_of_mem_bodyLines htargets List.mem_cons_self (by simpa [hbody] using hvalue)

/-- The block of a node assigns the variables that the table holds for its ports. -/
theorem assigns_of_valueOf? (hids : (f.liveNodes.map (·.id)).Nodup) {q : Placed}
    (hq : q ∈ (ofFlow f).nodes) {port v : String}
    (hv : (ofFlow f).collected.valueOf? q.node.id port = some v) :
    ∃ line ∈ lines (block f (ofFlow f).collected q), Assigns line v := by
  obtain ⟨q', hq', hid, ho⟩ := valueOf?_cases hv
  rw [eq_of_id hids hq' hq hid] at ho
  have htable : q.node.kind.isTabular = true →
      ∃ line ∈ lines (block f (ofFlow f).collected q), Assigns line v := by
    intro hk
    have hvar : v = tableVariable q.name := by
      rw [Placed.outputs_of_tabular hk] at ho
      split at ho
      · cases ho
      · exact congrArg Prod.snd (List.mem_singleton.mp ho)
    rw [hvar]
    exact assigns_of_table hq hk
  cases hk : q.node.kind with
  | function => exact assigns_of_call hq hk ho hv
  | csvInput => exact htable (by simp [hk, NodeKind.isTabular])
  | excelInput => exact htable (by simp [hk, NodeKind.isTabular])
  | subFlow => simp [Placed.outputs, hk] at ho
  | output => simp [Placed.outputs, hk] at ho
  | other name => simp [Placed.outputs, hk] at ho

end Plan

end Script

end FlowScript
