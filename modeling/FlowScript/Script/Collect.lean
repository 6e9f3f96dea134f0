import FlowScript.Flow.Identifier
import FlowScript.Flow.Issue
import FlowScript.Graph.Cycle
import FlowScript.Graph.Order
import FlowScript.Script.Diagnostic
import FlowScript.Script.Literal
import FlowScript.Source.Signature

/-!
# What a script is made of

The order of the nodes, and what is gathered from them before anything is written: import
statements, function definitions, the rows of tabular inputs, and the variable of every output port.

Variables are named after node ids. Characters that cannot stand in an identifier become
underscores, and ids that would become the same name are told apart by a number.
-/

namespace FlowScript.Script

open Text

/-! ## Names -/

/-- A text with every character outside of identifiers replaced by an underscore. -/
def sanitize (s : String) : String :=
  String.ofList (s.toList.map (fun c => if isWordChar c then c else '_'))

/-- The `k`-th name to try for a base: the base itself, then the base with numbers from two on. -/
def candidate (base : String) (k : Nat) : String :=
  if k = 0 then base else base ++ "_" ++ toString (k + 1)

/-- The first candidate that is not taken. One of the first `taken.length + 1` candidates is free. -/
def freshName (base : String) (taken : List String) : String :=
  (((List.range (taken.length + 1)).map (candidate base)).find?
    (fun name => !taken.contains name)).getD base

/-- The names of nodes with the given ids, in order, when some names are taken. -/
def namesFor : (taken ids : List String) → List String
  | _, [] => []
  | taken, id :: rest =>
    let name := freshName (sanitize id) taken
    name :: namesFor (name :: taken) rest

/-- The names of the nodes of a flow, in flow order. -/
def nodeNames (nodes : List Node) : List String :=
  namesFor [] (nodes.map (·.id))

/-! ## Order -/

/-- The nodes of a flow in the order of their blocks. -/
structure Ordering where
  /-- Places in the list of nodes. -/
  places : List Nat
  diagnostics : List Diagnostic

/-- The finding for a connection that names a missing node. -/
def danglingNote (c : Connection) : Diagnostic :=
  { code := .danglingConnection, severity := .warning, connectionId := c.id
    message := "connection " ++ quoted c.id ++ " references a missing node ("
      ++ quoted c.sourceNode ++ " -> " ++ quoted c.targetNode ++ ") and is ignored" }

/-- The finding for a graph with cycles. -/
def cycleNote (cycles : List (List String)) : Diagnostic :=
  let shown := cycles.map (fun ids => " [" ++ Graph.cycleText ids ++ "]")
  .warning .cycle "" ("flow contains a cycle" ++ String.join shown
    ++ "; nodes are ordered by canvas position instead")

/-- The names of the nodes that a node waits for: those it reads from that were not placed. -/
def waitsFor (g : Graph) (placedIds : List String) (n : Node) : List String :=
  ((g.dependencies n.id).filter (fun id => !placedIds.contains id)).filterMap
    (fun id => (g.nodes.find? (·.id == id)).map (·.name))

/-- The findings for nodes that are on no cycle and still could not be placed. -/
def blockedNotes (g : Graph) (placedIds cycleIds : List String) : List Diagnostic :=
  (g.nodes.filter (fun n => !placedIds.contains n.id && !cycleIds.contains n.id)).map (fun n =>
    { code := .blockedByCycle, severity := .info, nodeId := n.id
      message := "node " ++ quoted n.name ++ " reads from "
        ++ String.intercalate ", " ((waitsFor g placedIds n).map quoted)
        ++ ", which cannot be ordered" })

/-- The order of the blocks: dependency order or, when there is a cycle, canvas order. -/
def Ordering.ofGraph (g : Graph) : Ordering :=
  let dangling := g.dangling.map danglingNote
  if g.isOrdered then ⟨g.placed, dangling⟩
  else
    let cycles := g.cycles.map g.idsAt
    ⟨g.canvasOrder,
      dangling ++ cycleNote cycles :: blockedNotes g (g.idsAt g.placed) cycles.flatten⟩

/-! ## Definitions, rows and variables -/

/-- The definition of a function in the script. -/
structure Definition where
  name : String
  /-- Name and id of the node that brought it. -/
  nodeName : String
  nodeId : String
  /-- The source without its import lines and its shared indentation. -/
  body : List Char

/-- What is known of the nodes when the blocks are written. -/
structure Collected where
  /-- Different import statements in order of appearance. -/
  imports : List String
  /-- Definitions of different functions in order of appearance. -/
  definitions : List Definition := []
  /-- The function that each function node calls, by place; none where there is nothing to call. -/
  calls : List (Nat × Option String) := []
  /-- The rows of tabular inputs, by place. -/
  rows : List (Nat × List Char) := []
  /-- The variable of each output port, by node and port id; the latest entry comes first. -/
  bindings : List ((String × String) × String) := []
  diagnostics : List Diagnostic := []

/-- The imports that every script needs to show figures. -/
def baseImports : List String :=
  ["import matplotlib.pyplot as plt", "from io import BytesIO", "import base64"]

/-- The import of the library that holds tables. -/
def tableImport : String := "import pandas as pd"

/-- The import of the library that reads rows. -/
def rowsImport : String := "import json"

/-- The start of an output line that carries a figure. -/
def figureMark : String := "MATPLOTLIB_FIGURE_BASE64:"

/-- Adds a statement to different statements unless it is there or empty. -/
def addImport (imports : List String) (statement : String) : List String :=
  if statement.isEmpty || imports.contains statement then imports else imports ++ [statement]

namespace Collected

/-- Adds an import statement. -/
def import_ (c : Collected) (statement : String) : Collected :=
  { c with imports := addImport c.imports statement }

/-- Adds a finding. -/
def note (c : Collected) (d : Diagnostic) : Collected :=
  { c with diagnostics := c.diagnostics ++ [d] }

/-- Gives an output port its variable. -/
def bind (c : Collected) (nodeId portId target : String) : Collected :=
  { c with bindings := ((nodeId, portId), target) :: c.bindings }

/-- The variable of an output port. -/
def valueOf? (c : Collected) (nodeId portId : String) : Option String :=
  c.bindings.lookup (nodeId, portId)

/-- Notes that a node carries the wrong variant; nothing is noted when it carries nothing. -/
def noteMismatch (c : Collected) (n : Node) : Collected :=
  match n.payload with
  | none => c
  | some p =>
    c.note (.warning .invalidNode n.id ("node " ++ quoted n.name ++ " of type " ++ n.kind.name
      ++ " carries " ++ p.shape.typeName ++ " data"))

/-- The definition of the given function. -/
def definition? (c : Collected) (name : String) : Option Definition :=
  c.definitions.find? (·.name == name)

/-- Adds the definition of a function unless there is one; a different body is noted. -/
def define (c : Collected) (n : Node) (name : String) (body : List Char) : Collected :=
  match c.definition? name with
  | some first =>
    if first.body == body then c
    else
      c.note (.warning .duplicateFunction n.id ("node " ++ quoted n.name ++ " redefines " ++ name
        ++ "; the first definition is used"))
  | none => { c with definitions := c.definitions ++ [⟨name, n.name, n.id, body⟩] }

end Collected

/-- The lines of a function source. -/
def codeLines (code : String) : List (List Char) :=
  cut '\n' (unixLines code.toList)

/-- A line is an import statement. -/
def isImport (line : List Char) : Bool :=
  isImportLine (String.ofList line)

/-- The import statements of a source. -/
def importsOf (lines : List (List Char)) : List String :=
  (lines.filter isImport).map (fun l => String.ofList (strip l))

/-- The source without its import statements. -/
def bodyOf (lines : List (List Char)) : List Char :=
  dedent (lines.filter (fun l => !isImport l))

/-- The variables of the outputs of a call. A single output needs no number. -/
def outputVariables (function nodeName : String) (ports : List Port) : List (String × String) :=
  match ports with
  | [p] => [(p.id, function ++ "_output_" ++ nodeName)]
  | ports =>
    ports.mapIdx (fun i p => (p.id, function ++ "_output_" ++ toString i ++ "_" ++ nodeName))

/-- Gathers a function node. -/
def collectFunction (c : Collected) (place : Nat) (nodeName : String) (n : Node) : Collected :=
  match n.function? with
  | none =>
    let c := c.noteMismatch n
    { c with calls := c.calls ++ [(place, none)] }
  | some data =>
    let lines := codeLines data.code
    if isBlankText data.code then { c with calls := c.calls ++ [(place, none)] }
    else
      let c := (importsOf lines).foldl Collected.import_ c
      let found := functionName? (String.ofList (unixLines data.code.toList))
      let name := found.getD ("execute_default_" ++ nodeName)
      let c :=
        if found.isSome then c
        else
          c.note (.warning .missingDefinition n.id ("node " ++ quoted n.name
            ++ ": no function definition found, calling " ++ name))
      let c := { c with calls := c.calls ++ [(place, some name)] }
      let c := c.define n name (bodyOf lines)
      (outputVariables name nodeName n.outputPorts).foldl
        (fun c (port, target) => c.bind n.id port target) c

/-- The rows of a preview, unless they are absent or null. -/
def rowsOf? (file : FileData) : Option (List Char) :=
  match file.preview with
  | none => none
  | some p =>
    match p.rows with
    | none => none
    | some rows => if rows.isEmpty || rows == "null".toList then none else some rows

/-- The variable of a tabular input. -/
def tableVariable (nodeName : String) : String :=
  "df_" ++ nodeName

/-- Gathers a tabular input. -/
def collectTable (c : Collected) (place : Nat) (nodeName : String) (n : Node) : Collected :=
  let c := c.import_ tableImport
  let c :=
    match n.outputPorts with
    | [] => c
    | p :: _ => c.bind n.id p.id (tableVariable nodeName)
  match n.file? with
  | none => c.noteMismatch n
  | some file =>
    match rowsOf? file with
    | none => c
    | some rows =>
      match Json.parse rows with
      | .error fault =>
        c.note (.warning .invalidPreview n.id ("node " ++ quoted n.name
          ++ ": preview data is not valid JSON, falling back to a file load: " ++ fault.message))
      | .ok tree =>
        let c := c.import_ rowsImport
        { c with rows := c.rows ++ [(place, tree.compact .plain)] }

/-- Gathers one node. -/
def collectNode (c : Collected) (place : Nat) (nodeName : String) (n : Node) : Collected :=
  match n.kind with
  | .function => collectFunction c place nodeName n
  | .csvInput | .excelInput => collectTable c place nodeName n
  | .subFlow => if n.subFlow?.isSome then c else c.noteMismatch n
  | .output => if n.output?.isSome then c else c.noteMismatch n
  | .other kind =>
    c.note (.warning .invalidNode n.id ("node " ++ quoted n.name ++ " has unsupported type "
      ++ quoted kind ++ " and is skipped"))

/-- A node with its place and its name in the script. -/
structure Placed where
  place : Nat
  name : String
  node : Node

/-- The nodes at the given places with their names. -/
def placedNodes (nodes : List Node) (places : List Nat) : List Placed :=
  let names := nodeNames nodes
  places.filterMap (fun i => (nodes[i]?).map (fun n => ⟨i, names.getD i "", n⟩))

/-- Gathers the nodes in order. -/
def collect (nodes : List Placed) : Collected :=
  nodes.foldl (fun c p => collectNode c p.place p.name p.node) { imports := baseImports }

end FlowScript.Script
