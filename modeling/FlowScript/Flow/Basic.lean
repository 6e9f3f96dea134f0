import FlowScript.Decimal.Binary64
import FlowScript.Json.Value

/-!
# Flows

A flow is a list of nodes and a list of connections between their ports, as the editor keeps them.
Documents may hold null entries in place of nodes, ports and connections; they keep their place in
the lists and every operation looks past them.

## Main definitions

- `Flow`, `Node`, `Port` and `Connection` are the parts of a flow.
- `Payload` is what a node carries besides its ports.
- `Flow.node?`, `Flow.incoming?` and `Node.port?` look things up; the first match counts.
- `Flow.settled` is the form that editing works on, without null entries.
-/

namespace FlowScript

/-- What a node does. Documents may name kinds that no operation supports. -/
inductive NodeKind where
  | function
  | csvInput
  | excelInput
  | subFlow
  | output
  | other (name : String)
  deriving DecidableEq

namespace NodeKind

/-- The name of a kind in documents. -/
def name : NodeKind → String
  | function => "python-function"
  | csvInput => "csv-input"
  | excelInput => "excel-input"
  | subFlow => "sub-flow"
  | output => "output-node"
  | other name => name

/-- The kind with the given name. -/
def ofName (name : String) : NodeKind :=
  if name = "python-function" then function
  else if name = "csv-input" then csvInput
  else if name = "excel-input" then excelInput
  else if name = "sub-flow" then subFlow
  else if name = "output-node" then output
  else other name

/-- The kind is one of the supported ones. -/
def isSupported : NodeKind → Bool
  | other _ => false
  | _ => true

/-- The kind reads a table from a file. -/
def isTabular : NodeKind → Bool
  | csvInput | excelInput => true
  | _ => false

end NodeKind

/-- The side of a node that a port is on. Documents may say anything. -/
inductive Direction where
  | input
  | output
  | other (name : String)
  deriving DecidableEq

namespace Direction

/-- The name of a direction in documents. -/
def name : Direction → String
  | input => "input"
  | output => "output"
  | other name => name

/-- The direction with the given name. -/
def ofName (name : String) : Direction :=
  if name = "input" then input else if name = "output" then output else other name

end Direction

/-- The place of a node on the canvas. -/
structure Position where
  x : Double := .zero
  y : Double := .zero
  deriving DecidableEq

/-- The part of the canvas that is shown. -/
structure Viewport where
  x : Double := .zero
  y : Double := .zero
  zoom : Double := .zero
  deriving DecidableEq

/-- A connection point of a node. The display name can be edited; the source name is the one that
the code gave the port, and renaming keeps it. -/
structure Port where
  id : String := ""
  name : String := ""
  sourceName : String := ""
  nodeId : String := ""
  direction : Direction := .other ""
  deriving DecidableEq

/-- A wire from an output port to an input port. -/
structure Connection where
  id : String := ""
  sourceNode : String := ""
  sourcePort : String := ""
  targetNode : String := ""
  targetPort : String := ""
  deriving DecidableEq

/-- The code of a function node. -/
structure FunctionData where
  code : String := ""
  templateId : String := ""
  description : String := ""

/-- What was read of a file when it was chosen. -/
structure FilePreview where
  /-- The column names; absent is told apart from empty. -/
  headers : Option (List String) := none
  firstRow : Option (List String) := none
  lastRow : List String := []
  rowCount : Int := 0
  error : String := ""
  /-- The rows of the file as a written JSON document, when all of it was read. -/
  rows : Option (List Char) := none

/-- The file of a tabular input. -/
structure FileData where
  fileName : String := ""
  fileSize : Int := 0
  preview : Option FilePreview := none
  description : String := ""

/-- The flow that a sub-flow node stands for. -/
structure SubFlowData where
  subFlowId : String := ""
  description : String := ""

/-- The value that an output node was given. -/
structure OutputData where
  value : Json.Value := .null
  valueKind : String := ""
  description : String := ""

/-- The variants of what a node carries. -/
inductive Shape where
  | function
  | file
  | subFlow
  | output
  deriving DecidableEq

/-- The name of a variant in messages. -/
def Shape.typeName : Shape → String
  | function => "*model.FunctionData"
  | file => "*model.FileInputData"
  | subFlow => "*model.SubFlowData"
  | output => "*model.OutputData"

/-- What a node carries besides its ports. A variant may also be there without any content; then
nothing can be looked up in it. -/
inductive Payload where
  | function (data : FunctionData)
  | file (data : FileData)
  | subFlow (data : SubFlowData)
  | output (data : OutputData)
  | hollow (shape : Shape)

/-- The variant of a payload. -/
def Payload.shape : Payload → Shape
  | function _ => .function
  | file _ => .file
  | subFlow _ => .subFlow
  | output _ => .output
  | hollow shape => shape

/-- One step of a flow. -/
structure Node where
  id : String := ""
  kind : NodeKind := .other ""
  name : String := ""
  position : Position := {}
  inputs : List (Option Port) := []
  outputs : List (Option Port) := []
  payload : Option Payload := none

namespace Node

/-- The code of a function node. -/
def function? (n : Node) : Option FunctionData :=
  match n.payload with
  | some (.function d) => some d
  | _ => none

/-- The file of a tabular input. -/
def file? (n : Node) : Option FileData :=
  match n.payload with
  | some (.file d) => some d
  | _ => none

/-- The reference of a sub-flow node. -/
def subFlow? (n : Node) : Option SubFlowData :=
  match n.payload with
  | some (.subFlow d) => some d
  | _ => none

/-- The value of an output node. -/
def output? (n : Node) : Option OutputData :=
  match n.payload with
  | some (.output d) => some d
  | _ => none

/-- The input ports that are there. -/
def inputPorts (n : Node) : List Port :=
  n.inputs.filterMap (fun p => p)

/-- The output ports that are there. -/
def outputPorts (n : Node) : List Port :=
  n.outputs.filterMap (fun p => p)

/-- The ports that are there, inputs first. -/
def ports (n : Node) : List Port :=
  n.inputPorts ++ n.outputPorts

/-- The port with the given id. -/
def port? (n : Node) (id : String) : Option Port :=
  n.ports.find? (·.id == id)

/-- There is an input port with the given id. -/
def hasInput (n : Node) (id : String) : Bool :=
  n.inputPorts.any (·.id == id)

/-- There is an output port with the given id. -/
def hasOutput (n : Node) (id : String) : Bool :=
  n.outputPorts.any (·.id == id)

end Node

/-- A flow: the unit that is stored, edited and compiled. -/
structure Flow where
  id : String := ""
  name : String := ""
  nodes : List (Option Node) := []
  connections : List (Option Connection) := []
  viewport : Viewport := {}
  createdAt : String := ""
  /-- The document has a list of nodes, even if it is empty. -/
  nodesListed : Bool := true
  /-- The document has a list of connections, even if it is empty. -/
  connectionsListed : Bool := true

namespace Flow

/-- The nodes that are there. -/
def liveNodes (f : Flow) : List Node :=
  f.nodes.filterMap (fun n => n)

/-- The connections that are there. -/
def liveConnections (f : Flow) : List Connection :=
  f.connections.filterMap (fun c => c)

/-- The first node with the given id. -/
def node? (f : Flow) (id : String) : Option Node :=
  f.liveNodes.find? (·.id == id)

/-- Some node has the given id. -/
def hasNode (f : Flow) (id : String) : Bool :=
  (f.node? id).isSome

/-- The first connection into an input port. -/
def incoming? (f : Flow) (nodeId portId : String) : Option Connection :=
  f.liveConnections.find? (fun c => c.targetNode == nodeId && c.targetPort == portId)

end Flow

/-- An empty list is the same as none. -/
def someUnlessEmpty {α : Type} : Option (List α) → Option (List α)
  | some [] => none
  | l => l

/-- A preview whose empty lists are absent. -/
def FilePreview.settled (p : FilePreview) : FilePreview :=
  { p with headers := someUnlessEmpty p.headers, firstRow := someUnlessEmpty p.firstRow }

/-- A payload whose preview has no empty lists. -/
def Payload.settled : Payload → Payload
  | file d => file { d with preview := d.preview.map FilePreview.settled }
  | p => p

/-- A node without null ports. -/
def Node.settled (n : Node) : Node :=
  { n with
    inputs := n.inputPorts.map some
    outputs := n.outputPorts.map some
    payload := n.payload.map Payload.settled }

/-- A flow without null entries, the form that every edit works on. -/
def Flow.settled (f : Flow) : Flow :=
  { f with
    nodes := f.liveNodes.map (fun n => some n.settled)
    connections := f.liveConnections.map some
    nodesListed := true
    connectionsListed := true }

end FlowScript
