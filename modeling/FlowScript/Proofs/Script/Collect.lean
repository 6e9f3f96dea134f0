import FlowScript.Script.Collect
import Mathlib.Data.List.Nodup

/-!
# What the nodes contribute

What is gathered from the nodes of a flow, told node by node. What a node brings does not depend on
what was gathered before it: its statements and its definition are added to those that are there, and
its call, its rows and its variables are put behind those of the nodes before. Only whether a
definition is noted depends on the definitions that are known.

## Main definitions

- `Placed.call?` — the function that a function node calls
- `Placed.statements`, `Placed.definition?` — the import statements and the definition of a node
- `Placed.rows?` — the rows that a tabular input holds
- `Placed.bindings` — the variables of the output ports of a node
- `Placed.complaints`, `Placed.notes` — what is found when a node is gathered
- `Placed.addTo` — all that a node adds to what was gathered

## Main results

- `collectNode_eq` — gathering a node adds what the node brings
- `foldl_collectNode_eq` — gathering nodes one after the other adds what all of them bring
- `collect_diagnostics_code` — gathering finds neither cycles nor missing nodes nor open inputs
-/

namespace FlowScript.Script

namespace Placed

/-- The function that a function node calls, when it carries code. -/
def call? (p : Placed) : Option String :=
  match p.node.function? with
  | none => none
  | some data =>
    if isBlankText data.code then none
    else
      some ((functionName? (String.ofList (unixLines data.code.toList))).getD
        ("execute_default_" ++ p.name))

/-- The entry of a node in the list of calls. -/
def calls (p : Placed) : List (Nat × Option String) :=
  match p.node.kind with
  | .function => [(p.place, p.call?)]
  | _ => []

/-- The rows of a file preview in compact form, when there are any and they can be read. -/
def rows? (p : Placed) : Option (List Char) :=
  match p.node.file? with
  | none => none
  | some file =>
    match rowsOf? file with
    | none => none
    | some rows =>
      match Json.parse rows with
      | .error _ => none
      | .ok tree => some (tree.compact .plain)

/-- The entry of a node in the list of rows. -/
def rows (p : Placed) : List (Nat × List Char) :=
  if p.node.kind.isTabular then (p.rows?.map (fun rows => (p.place, rows))).toList else []

/-- The variables of the output ports of a node, in the order of the ports. -/
def outputs (p : Placed) : List (String × String) :=
  match p.node.kind with
  | .function =>
    match p.call? with
    | none => []
    | some name => outputVariables name p.name p.node.outputPorts
  | .csvInput | .excelInput =>
    match p.node.outputPorts with
    | [] => []
    | port :: _ => [(port.id, tableVariable p.name)]
  | _ => []

/-- The entries of a node in the table of variables. -/
def bindings (p : Placed) : List ((String × String) × String) :=
  p.outputs.map (fun o => ((p.node.id, o.1), o.2))

/-- The lines of the code that a node carries, unless it is blank. -/
def codeOf (p : Placed) : List (List Char) :=
  match p.node.function? with
  | none => []
  | some data => if isBlankText data.code then [] else codeLines data.code

/-- The import statements that a node brings. -/
def statements (p : Placed) : List String :=
  match p.node.kind with
  | .function => importsOf p.codeOf
  | .csvInput | .excelInput => tableImport :: if p.rows?.isSome then [rowsImport] else []
  | _ => []

/-- The definition that a node brings. -/
def definition? (p : Placed) : Option Definition :=
  match p.node.kind with
  | .function => p.call?.map (fun name => ⟨name, p.node.name, p.node.id, bodyOf p.codeOf⟩)
  | _ => none

end Placed

/-! ## Findings -/

/-- Adds a definition unless its function is defined already. -/
def addDefinition (known : List Definition) (d : Definition) : List Definition :=
  if known.any (·.name == d.name) then known else known ++ [d]

/-- The first of some definitions of the function has another body. -/
def redefines (all : List Definition) (d : Definition) : Bool :=
  (all.find? (·.name == d.name)).any (fun first => first.body != d.body)

/-- The finding for a node whose definition differs from the first one. -/
def redefinitionNote (d : Definition) : Diagnostic :=
  .warning .duplicateFunction d.nodeId ("node " ++ quoted d.nodeName ++ " redefines " ++ d.name
    ++ "; the first definition is used")

/-- The finding for a node that calls a function of the given name because its code defines none. -/
def missingNote (n : Node) (name : String) : Diagnostic :=
  .warning .missingDefinition n.id ("node " ++ quoted n.name
    ++ ": no function definition found, calling " ++ name)

/-- The finding for rows that cannot be read. -/
def previewNote (n : Node) (fault : Json.Fault) : Diagnostic :=
  .warning .invalidPreview n.id ("node " ++ quoted n.name
    ++ ": preview data is not valid JSON, falling back to a file load: " ++ fault.message)

/-- The finding for a node of a kind that is not supported. -/
def unsupportedNote (n : Node) (kind : String) : Diagnostic :=
  .warning .invalidNode n.id ("node " ++ quoted n.name ++ " has unsupported type " ++ quoted kind
    ++ " and is skipped")

/-- The finding for a node that carries something its kind does not call for. -/
def mismatchNotes (n : Node) : List Diagnostic :=
  match n.payload with
  | none => []
  | some p =>
    [.warning .invalidNode n.id ("node " ++ quoted n.name ++ " of type " ++ n.kind.name
      ++ " carries " ++ p.shape.typeName ++ " data")]

namespace Placed

/-- What is found about the rows of a file. -/
def previewNotes (p : Placed) : List Diagnostic :=
  match p.node.file? with
  | none => []
  | some file =>
    match rowsOf? file with
    | none => []
    | some rows =>
      match Json.parse rows with
      | .error fault => [previewNote p.node fault]
      | .ok _ => []

/-- What is found about what a node is or carries. -/
def complaints (p : Placed) : List Diagnostic :=
  match p.node.kind with
  | .function => if p.node.function?.isSome then [] else mismatchNotes p.node
  | .csvInput | .excelInput =>
    if p.node.file?.isSome then p.previewNotes else mismatchNotes p.node
  | .subFlow => if p.node.subFlow?.isSome then [] else mismatchNotes p.node
  | .output => if p.node.output?.isSome then [] else mismatchNotes p.node
  | .other kind => [unsupportedNote p.node kind]

/-- What is found about the definition in the code of a function node. -/
def missing (p : Placed) : List Diagnostic :=
  match p.node.kind with
  | .function =>
    match p.node.function? with
    | none => []
    | some data =>
      if isBlankText data.code || (functionName? (String.ofList (unixLines data.code.toList))).isSome
      then []
      else [missingNote p.node ("execute_default_" ++ p.name)]
  | _ => []

/-- The finding for a definition that differs from the first one of its function. -/
def redefinition (p : Placed) (known : List Definition) : List Diagnostic :=
  (p.definition?.toList.filter (redefines (known ++ p.definition?.toList))).map redefinitionNote

/-- All that is found when a node is gathered, with the definitions that are known then. -/
def notes (p : Placed) (known : List Definition) : List Diagnostic :=
  p.complaints ++ p.missing ++ p.redefinition known

/-- What is gathered when a node adds what it brings. -/
def addTo (p : Placed) (c : Collected) : Collected where
  imports := p.statements.foldl addImport c.imports
  definitions := p.definition?.toList.foldl addDefinition c.definitions
  calls := c.calls ++ p.calls
  rows := c.rows ++ p.rows
  bindings := p.bindings.reverse ++ c.bindings
  diagnostics := c.diagnostics ++ p.notes c.definitions

end Placed

/-! ## Gathering one node -/

theorem foldl_import (c : Collected) (statements : List String) :
    statements.foldl Collected.import_ c =
      { c with imports := statements.foldl addImport c.imports } := by
  induction statements generalizing c with
  | nil => rfl
  | cons s rest ih =>
    rw [List.foldl_cons, ih]
    rfl

theorem foldl_bind (c : Collected) (id : String) (ports : List (String × String)) :
    ports.foldl (fun c (port, target) => c.bind id port target) c =
      { c with bindings := (ports.map (fun o => ((id, o.1), o.2))).reverse ++ c.bindings } := by
  induction ports generalizing c with
  | nil => rfl
  | cons o rest ih =>
    rw [List.foldl_cons, ih]
    simp [Collected.bind]

theorem noteMismatch_eq (c : Collected) (n : Node) :
    c.noteMismatch n = { c with diagnostics := c.diagnostics ++ mismatchNotes n } := by
  unfold Collected.noteMismatch mismatchNotes
  cases n.payload with
  | none => simp
  | some p => rfl

/-- A definition is added unless its function is known; a different body is noted. -/
theorem define_eq (c : Collected) (n : Node) (name : String) (body : List Char) :
    c.define n name body =
      { c with
        definitions := addDefinition c.definitions ⟨name, n.name, n.id, body⟩
        diagnostics := c.diagnostics ++ ([⟨name, n.name, n.id, body⟩].filter
          (redefines (c.definitions ++ [⟨name, n.name, n.id, body⟩]))).map redefinitionNote } := by
  unfold Collected.define Collected.definition?
  cases hfirst : c.definitions.find? (·.name == name) with
  | some first =>
    have hknown : c.definitions.any (·.name == name) = true := by
      rw [List.any_eq_true]
      exact ⟨first, List.mem_of_find?_eq_some hfirst, by simpa using List.find?_some hfirst⟩
    have hdefinitions : addDefinition c.definitions ⟨name, n.name, n.id, body⟩ = c.definitions := by
      rw [addDefinition, if_pos hknown]
    have hredefines : redefines (c.definitions ++ [⟨name, n.name, n.id, body⟩])
        ⟨name, n.name, n.id, body⟩ = (first.body != body) := by
      rw [redefines, List.find?_append, hfirst, Option.some_or, Option.any_some]
    rw [hdefinitions]
    by_cases hbody : first.body = body
    · rw [List.filter_cons_of_neg (by simp [hredefines, hbody])]
      simp [hbody]
    · rw [List.filter_cons_of_pos (by simpa [hredefines] using hbody)]
      simp [hbody, Collected.note, redefinitionNote]
  | none =>
    have hnew : c.definitions.any (·.name == name) = false := by
      rw [List.any_eq_false]
      exact List.find?_eq_none.mp hfirst
    have hredefines : redefines (c.definitions ++ [⟨name, n.name, n.id, body⟩])
        ⟨name, n.name, n.id, body⟩ = false := by
      rw [redefines, List.find?_append, hfirst, Option.none_or]
      simp
    rw [addDefinition, if_neg (by simp [hnew]), List.filter_cons_of_neg (by simp [hredefines])]
    simp

theorem Placed.outputs_of_tabular {p : Placed} (hk : p.node.kind.isTabular = true) :
    p.outputs =
      match p.node.outputPorts with
      | [] => []
      | port :: _ => [(port.id, tableVariable p.name)] := by
  unfold Placed.outputs
  cases hkind : p.node.kind with
  | csvInput => rfl
  | excelInput => rfl
  | function => simp [hkind, NodeKind.isTabular] at hk
  | subFlow => simp [hkind, NodeKind.isTabular] at hk
  | output => simp [hkind, NodeKind.isTabular] at hk
  | other name => simp [hkind, NodeKind.isTabular] at hk

/-- The first half of gathering a tabular input: the variable of its table. -/
def bindTable (c : Collected) (p : Placed) : Collected :=
  match p.node.outputPorts with
  | [] => c.import_ tableImport
  | port :: _ => (c.import_ tableImport).bind p.node.id port.id (tableVariable p.name)

/-- The second half of gathering a tabular input: its rows. -/
def readTable (c : Collected) (p : Placed) : Collected :=
  match p.node.file? with
  | none => c.noteMismatch p.node
  | some file =>
    match rowsOf? file with
    | none => c
    | some rows =>
      match Json.parse rows with
      | .error fault =>
        c.note (.warning .invalidPreview p.node.id ("node " ++ quoted p.node.name
          ++ ": preview data is not valid JSON, falling back to a file load: " ++ fault.message))
      | .ok tree =>
        { c.import_ rowsImport with
          rows := (c.import_ rowsImport).rows ++ [(p.place, tree.compact .plain)] }

section Node

variable (c : Collected) {p : Placed}

/-- A node that brings neither code nor a table adds what is found about it. -/
theorem Placed.addTo_of_complaints (hstatements : p.statements = [])
    (hdefinition : p.definition? = none) (hcalls : p.calls = []) (hrows : p.rows = [])
    (hbindings : p.bindings = []) (hmissing : p.missing = []) :
    p.addTo c = { c with diagnostics := c.diagnostics ++ p.complaints } := by
  simp [addTo, notes, redefinition, hstatements, hdefinition, hcalls, hrows, hbindings, hmissing]

section Function

variable (hk : p.node.kind = .function)

include hk

/-- A function node without code adds a call of nothing. -/
theorem Placed.addTo_of_no_call (hcall : p.call? = none) (hcode : p.codeOf = [])
    (hmissing : p.missing = []) :
    p.addTo c =
      { c with
        calls := c.calls ++ [(p.place, none)]
        diagnostics := c.diagnostics ++ p.complaints } := by
  have hstatements : p.statements = [] := by
    rw [statements, hk, hcode]
    rfl
  have hdefinition : p.definition? = none := by simp [definition?, hk, hcall]
  have hrows : p.rows = [] := by simp [rows, hk, NodeKind.isTabular]
  simp [addTo, notes, redefinition, calls, bindings, outputs, hk, hcall, hstatements, hdefinition,
    hrows, hmissing]

/-- A function node with code adds its statements, its call, its definition and its variables. -/
theorem Placed.addTo_of_call {name : String} (hcall : p.call? = some name)
    (hcomplaints : p.complaints = []) :
    p.addTo c =
      { c with
        imports := (importsOf p.codeOf).foldl addImport c.imports
        definitions := addDefinition c.definitions ⟨name, p.node.name, p.node.id, bodyOf p.codeOf⟩
        calls := c.calls ++ [(p.place, some name)]
        bindings := ((outputVariables name p.name p.node.outputPorts).map
          (fun o => ((p.node.id, o.1), o.2))).reverse ++ c.bindings
        diagnostics := c.diagnostics ++ p.missing ++
          ([⟨name, p.node.name, p.node.id, bodyOf p.codeOf⟩].filter (redefines (c.definitions ++
            [⟨name, p.node.name, p.node.id, bodyOf p.codeOf⟩]))).map redefinitionNote } := by
  have hdefinition : p.definition? = some ⟨name, p.node.name, p.node.id, bodyOf p.codeOf⟩ := by
    simp [definition?, hk, hcall]
  have hrows : p.rows = [] := by simp [rows, hk, NodeKind.isTabular]
  simp [addTo, notes, redefinition, statements, calls, bindings, outputs, hk, hcall, hdefinition,
    hrows, hcomplaints]

theorem collectFunction_eq : collectFunction c p.place p.name p.node = p.addTo c := by
  unfold collectFunction
  cases hf : p.node.function? with
  | none =>
    rw [Placed.addTo_of_no_call c hk (by simp [Placed.call?, hf]) (by simp [Placed.codeOf, hf])
      (by simp [Placed.missing, hk, hf])]
    simp [Placed.complaints, hk, hf, noteMismatch_eq]
  | some data =>
    have hcomplaints : p.complaints = [] := by simp [Placed.complaints, hk, hf]
    by_cases hblank : isBlankText data.code
    · rw [Placed.addTo_of_no_call c hk (by simp [Placed.call?, hf, hblank])
        (by simp [Placed.codeOf, hf, hblank]) (by simp [Placed.missing, hk, hf, hblank])]
      simp [hblank, hcomplaints]
    · have hcode : p.codeOf = codeLines data.code := by simp [Placed.codeOf, hf, hblank]
      simp only [hblank, Bool.false_eq_true, if_false]
      rw [foldl_bind, define_eq, foldl_import]
      -- a function without a definition is called by a name of its own, and that is noted
      cases hname : functionName? (String.ofList (unixLines data.code.toList)) with
      | none =>
        have hcall : p.call? = some ("execute_default_" ++ p.name) := by
          simp [Placed.call?, hf, hblank, hname]
        have hmissing : p.missing = [missingNote p.node ("execute_default_" ++ p.name)] := by
          simp [Placed.missing, hk, hf, hblank, hname]
        rw [Placed.addTo_of_call c hk hcall hcomplaints, hmissing, hcode]
        simp [Collected.note, missingNote]
      | some name =>
        have hcall : p.call? = some name := by simp [Placed.call?, hf, hblank, hname]
        have hmissing : p.missing = [] := by simp [Placed.missing, hk, hf, hname]
        rw [Placed.addTo_of_call c hk hcall hcomplaints, hmissing, hcode]
        simp

end Function

theorem collectTable_halves :
    collectTable c p.place p.name p.node = readTable (bindTable c p) p :=
  rfl

section Tabular

variable (hk : p.node.kind.isTabular = true)

include hk

theorem bindTable_eq :
    bindTable c p =
      { c.import_ tableImport with bindings := p.bindings.reverse ++ c.bindings } := by
  unfold bindTable Placed.bindings
  rw [Placed.outputs_of_tabular hk]
  cases p.node.outputPorts <;> rfl

theorem Placed.complaints_of_tabular :
    p.complaints = if p.node.file?.isSome then p.previewNotes else mismatchNotes p.node := by
  unfold complaints
  cases hkind : p.node.kind <;> simp [hkind, NodeKind.isTabular] at hk <;> rfl

/-- The rows of a tabular input are entered, or it is found that they cannot be read. -/
theorem readTable_eq :
    readTable c p =
      { c with
        imports := (if p.rows?.isSome then [rowsImport] else []).foldl addImport c.imports
        rows := c.rows ++ p.rows
        diagnostics := c.diagnostics ++ p.complaints } := by
  rw [Placed.complaints_of_tabular hk, Placed.rows, if_pos hk]
  unfold readTable Placed.rows? Placed.previewNotes
  cases hf : p.node.file? with
  | none =>
    dsimp only
    rw [noteMismatch_eq]
    simp
  | some file =>
    cases hr : rowsOf? file with
    | none => simp [hr]
    | some rows =>
      cases hparse : Json.parse rows with
      | error fault => simp [hr, hparse, Collected.note, previewNote]
      | ok tree => simp [hr, hparse, Collected.import_]

theorem collectTable_eq : collectTable c p.place p.name p.node = p.addTo c := by
  have hnone : p.definition? = none ∧ p.calls = [] ∧ p.missing = [] := by
    cases hkind : p.node.kind <;>
      simp_all [NodeKind.isTabular, Placed.definition?, Placed.calls, Placed.missing]
  have hstatements : p.statements =
      tableImport :: if p.rows?.isSome then [rowsImport] else [] := by
    unfold Placed.statements
    cases hkind : p.node.kind <;> simp [hkind, NodeKind.isTabular] at hk <;> rfl
  rw [collectTable_halves, readTable_eq _ hk, bindTable_eq c hk]
  simp [Placed.addTo, Placed.notes, Placed.redefinition, Collected.import_, hnone, hstatements]

end Tabular

/-- Gathering a node adds what the node brings. -/
theorem collectNode_eq (c : Collected) (p : Placed) :
    collectNode c p.place p.name p.node = p.addTo c := by
  unfold collectNode
  cases hk : p.node.kind with
  | function => exact collectFunction_eq c hk
  | csvInput => exact collectTable_eq c (by simp [hk, NodeKind.isTabular])
  | excelInput => exact collectTable_eq c (by simp [hk, NodeKind.isTabular])
  | subFlow =>
    rw [p.addTo_of_complaints c]
    · cases hs : p.node.subFlow? <;> simp [Placed.complaints, hk, hs, noteMismatch_eq]
    all_goals
      simp [Placed.statements, Placed.definition?, Placed.calls, Placed.rows, Placed.bindings,
        Placed.outputs, Placed.missing, NodeKind.isTabular, hk]
  | output =>
    rw [p.addTo_of_complaints c]
    · cases hs : p.node.output? <;> simp [Placed.complaints, hk, hs, noteMismatch_eq]
    all_goals
      simp [Placed.statements, Placed.definition?, Placed.calls, Placed.rows, Placed.bindings,
        Placed.outputs, Placed.missing, NodeKind.isTabular, hk]
  | other kind =>
    rw [p.addTo_of_complaints c]
    · simp [Placed.complaints, hk, Collected.note, unsupportedNote]
    all_goals
      simp [Placed.statements, Placed.definition?, Placed.calls, Placed.rows, Placed.bindings,
        Placed.outputs, Placed.missing, NodeKind.isTabular, hk]

end Node

/-! ## Gathering all nodes -/

/-- All that is found when nodes are gathered one after the other. -/
def gatheringNotes (known : List Definition) : List Placed → List Diagnostic
  | [] => []
  | p :: rest =>
    p.notes known ++ gatheringNotes (p.definition?.toList.foldl addDefinition known) rest

/-- Gathering nodes one after the other adds what all of them bring. -/
theorem foldl_collectNode_eq (nodes : List Placed) (c : Collected) :
    nodes.foldl (fun c p => collectNode c p.place p.name p.node) c =
      { imports := (nodes.flatMap Placed.statements).foldl addImport c.imports
        definitions := (nodes.filterMap Placed.definition?).foldl addDefinition c.definitions
        calls := c.calls ++ nodes.flatMap Placed.calls
        rows := c.rows ++ nodes.flatMap Placed.rows
        bindings := (nodes.flatMap Placed.bindings).reverse ++ c.bindings
        diagnostics := c.diagnostics ++ gatheringNotes c.definitions nodes } := by
  induction nodes generalizing c with
  | nil => simp [gatheringNotes]
  | cons p rest ih =>
    rw [List.foldl_cons, collectNode_eq, ih]
    cases hd : p.definition? <;>
      simp [Placed.addTo, gatheringNotes, hd, List.foldl_append]

theorem collect_calls (nodes : List Placed) :
    (collect nodes).calls = nodes.flatMap Placed.calls :=
  congrArg Collected.calls (foldl_collectNode_eq nodes _)

theorem collect_rows (nodes : List Placed) :
    (collect nodes).rows = nodes.flatMap Placed.rows :=
  congrArg Collected.rows (foldl_collectNode_eq nodes _)

/-- The table of variables, the latest entry first. -/
theorem collect_bindings (nodes : List Placed) :
    (collect nodes).bindings = (nodes.flatMap Placed.bindings).reverse :=
  (congrArg Collected.bindings (foldl_collectNode_eq nodes _)).trans (List.append_nil _)

theorem collect_diagnostics (nodes : List Placed) :
    (collect nodes).diagnostics = gatheringNotes [] nodes :=
  congrArg Collected.diagnostics (foldl_collectNode_eq nodes _)

/-- What is found when nodes are gathered is found when one of them is. -/
theorem exists_of_mem_gatheringNotes {known : List Definition} {nodes : List Placed}
    {d : Diagnostic} (hd : d ∈ gatheringNotes known nodes) :
    ∃ p ∈ nodes, ∃ earlier, d ∈ p.notes earlier := by
  induction nodes generalizing known with
  | nil => cases hd
  | cons p rest ih =>
    rcases List.mem_append.mp hd with hd | hd
    · exact ⟨p, List.mem_cons_self, known, hd⟩
    · obtain ⟨q, hq, hnotes⟩ := ih hd
      exact ⟨q, List.mem_cons_of_mem p hq, hnotes⟩

/-! ## The codes of findings -/

/-- The codes of what gathering finds. -/
def gatheringCodes : List DiagnosticCode :=
  [.invalidNode, .missingDefinition, .duplicateFunction, .invalidPreview]

theorem code_of_mem_mismatchNotes {n : Node} {d : Diagnostic} (hd : d ∈ mismatchNotes n) :
    d.code = .invalidNode := by
  unfold mismatchNotes at hd
  split at hd
  · cases hd
  · rw [List.mem_singleton.mp hd]
    rfl

namespace Placed

variable {p : Placed} {d : Diagnostic}

theorem code_of_mem_previewNotes (hd : d ∈ p.previewNotes) : d.code = .invalidPreview := by
  unfold previewNotes at hd
  split at hd
  · cases hd
  · split at hd
    · cases hd
    · split at hd
      · rw [List.mem_singleton.mp hd]
        rfl
      · cases hd

theorem code_of_mem_complaints (hd : d ∈ p.complaints) :
    d.code = .invalidNode ∨ d.code = .invalidPreview := by
  have hlacks : ∀ carries : Bool, d ∈ (if carries then [] else mismatchNotes p.node) →
      d.code = .invalidNode ∨ d.code = .invalidPreview := by
    intro carries h
    cases carries
    · exact .inl (code_of_mem_mismatchNotes h)
    · cases h
  have htable : d ∈ (if p.node.file?.isSome then p.previewNotes else mismatchNotes p.node) →
      d.code = .invalidNode ∨ d.code = .invalidPreview := by
    intro h
    split at h
    · exact .inr (code_of_mem_previewNotes h)
    · exact .inl (code_of_mem_mismatchNotes h)
  unfold complaints at hd
  split at hd
  · exact hlacks _ hd
  · exact htable hd
  · exact htable hd
  · exact hlacks _ hd
  · exact hlacks _ hd
  · rw [List.mem_singleton.mp hd]
    exact .inl rfl

theorem code_of_mem_missing (hd : d ∈ p.missing) : d.code = .missingDefinition := by
  unfold missing at hd
  split at hd
  · split at hd
    · cases hd
    · split at hd
      · cases hd
      · rw [List.mem_singleton.mp hd]
        rfl
  · cases hd

theorem code_of_mem_redefinition {known : List Definition} (hd : d ∈ p.redefinition known) :
    d.code = .duplicateFunction := by
  obtain ⟨definition, -, rfl⟩ := List.mem_map.mp hd
  rfl

theorem code_of_mem_notes {known : List Definition} (hd : d ∈ p.notes known) :
    d.code ∈ gatheringCodes := by
  rcases List.mem_append.mp hd with hd | hd
  · rcases List.mem_append.mp hd with hd | hd
    · rcases code_of_mem_complaints hd with h | h <;> simp [h, gatheringCodes]
    · simp [code_of_mem_missing hd, gatheringCodes]
  · simp [code_of_mem_redefinition hd, gatheringCodes]

end Placed

theorem collect_diagnostics_code {nodes : List Placed} {d : Diagnostic}
    (hd : d ∈ (collect nodes).diagnostics) : d.code ∈ gatheringCodes := by
  rw [collect_diagnostics] at hd
  obtain ⟨p, -, known, hp⟩ := exists_of_mem_gatheringNotes hd
  exact Placed.code_of_mem_notes hp

end FlowScript.Script
