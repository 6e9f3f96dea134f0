import FlowScript.Flow.Ports
import FlowScript.Source.Signature
import FlowScript.Text.Quoted

/-!
# Editing flows

Every edit takes a flow and gives a new one, or says why it cannot. Edits keep the ids of what they
do not touch, drop the wires of ports that go away, and never put two wires into one input.
-/

namespace FlowScript

/-- Why an edit was refused. -/
inductive EditError where
  | unknownKind (kind : NodeKind)
  | unknownNode (id : String)
  | unknownPort (port node : String)
  | unknownOutput (port node : String)
  | unknownInput (port node : String)
  | inputOccupied (port node connection : String)
  | notFunction (id : String)

/-- The wording of a refusal. -/
def EditError.message : EditError → String
  | unknownKind kind => "unknown node kind: " ++ quoted kind.name
  | unknownNode id => "unknown node: " ++ quoted id
  | unknownPort port node => "unknown port: " ++ quoted port ++ " on node " ++ quoted node
  | unknownOutput port node => "unknown port: output " ++ quoted port ++ " on node " ++ quoted node
  | unknownInput port node => "unknown port: input " ++ quoted port ++ " on node " ++ quoted node
  | inputOccupied port node connection =>
    "input port already connected: " ++ quoted port ++ " on node " ++ quoted node
      ++ " (connection " ++ quoted connection ++ ")"
  | notFunction id => "node is not a python function: " ++ quoted id

/-- The code of a new function node. -/
def defaultCode : String :=
  "def main(param1):\n  # Your Python Code here\n  return output1"

/-- What a new node is given. -/
structure NodeOptions where
  code : String := ""
  templateId : String := ""
  subFlowId : String := ""
  description : String := ""

/-- An empty flow with a fresh id. -/
def Flow.new (name createdAt : String) (supply : Supply) : Flow × Supply :=
  let (id, supply) := supply.nextId "flow"
  let ofNat (n : Nat) := (Binary64.ofRatio false n 1).getD .zero
  ({ id := id, name := name, viewport := ⟨ofNat 50, ofNat 50, ofNat 1⟩, createdAt := createdAt },
    supply)

/-- A node of a supported kind with fresh ports. The supply is drawn from even if the kind is
refused. -/
def Node.new (kind : NodeKind) (name : String) (position : Position) (options : NodeOptions)
    (supply : Supply) : Except EditError Node × Supply :=
  let (id, supply) := supply.nextId "node"
  let build (ins outs : List String) (payload : Payload) : Except EditError Node × Supply :=
    let (inputs, supply) := newPorts id .input ins supply
    let (outputs, supply) := newPorts id .output outs supply
    (.ok { id := id, kind := kind, name := name, position := position
           inputs := inputs.map some, outputs := outputs.map some, payload := some payload },
      supply)
  match kind with
  | .function =>
    let code := if options.code.isEmpty then defaultCode else options.code
    let sig := Signature.ofSource code
    build sig.inputs sig.outputs (.function ⟨code, options.templateId, options.description⟩)
  | .csvInput | .excelInput => build [] ["data"] (.file { description := options.description })
  | .subFlow => build ["input"] ["output"] (.subFlow ⟨options.subFlowId, options.description⟩)
  | .output =>
    build ["result"] [] (.output { valueKind := "json", description := options.description })
  | .other name => (.error (.unknownKind (.other name)), supply)

namespace Flow

/-- The flow with one more node. -/
def withNode (f : Flow) (n : Node) : Flow :=
  let f := f.settled
  { f with nodes := f.nodes ++ [some n] }

/-- Adds a new node. -/
def addNode (f : Flow) (kind : NodeKind) (name : String) (position : Position)
    (options : NodeOptions) (supply : Supply) : Except EditError (Flow × Node) × Supply :=
  let (made, supply) := Node.new kind name position options supply
  (made.map (fun n => (f.withNode n, n)), supply)

/-- Changes the first node with the given id. -/
def updateFirst (id : String) (change : Node → Node) : List (Option Node) → List (Option Node)
  | [] => []
  | none :: rest => none :: updateFirst id change rest
  | some n :: rest =>
    if n.id == id then some (change n) :: rest else some n :: updateFirst id change rest

/-- The connection still has its port on the node, or does not touch the node there. -/
def survives (n : Node) (c : Connection) : Bool :=
  (c.targetNode != n.id || n.hasInput c.targetPort)
    && (c.sourceNode != n.id || n.hasOutput c.sourcePort)

/-- Gives a function node new code. Its ports are derived again, and the connections of ports that
go away are dropped. -/
def updateCode (f : Flow) (nodeId code : String) (supply : Supply) :
    Except EditError Flow × Supply :=
  let f := f.settled
  match f.node? nodeId with
  | none => (.error (.unknownNode nodeId), supply)
  | some n =>
    match n.function?, n.kind with
    | some data, .function =>
      let sig := Signature.ofSource code
      let (inputs, supply) := reconcilePorts n.inputs sig.inputs .input n.id supply
      let (outputs, supply) := reconcilePorts n.outputs sig.outputs .output n.id supply
      let changed := { n with
        inputs := inputs.map some
        outputs := outputs.map some
        payload := some (.function { data with code := code }) }
      (.ok { f with
        nodes := updateFirst nodeId (fun _ => changed) f.nodes
        connections := (f.liveConnections.filter (survives changed)).map some }, supply)
    | _, _ => (.error (.notFunction nodeId), supply)

/-- A port with a new display name; it keeps its source name, or takes the old display name for
it. -/
def renamed (p : Port) (name : String) : Port :=
  { p with name := name, sourceName := if p.sourceName == "" then p.name else p.sourceName }

/-- Renames the first port with the given id in a list. -/
def renameIn (id name : String) : List (Option Port) → List (Option Port)
  | [] => []
  | none :: rest => none :: renameIn id name rest
  | some p :: rest =>
    if p.id == id then some (renamed p name) :: rest else some p :: renameIn id name rest

/-- Changes the display name of a port; inputs are looked at before outputs. -/
def renamePort (f : Flow) (nodeId portId name : String) : Except EditError Flow :=
  let f := f.settled
  match f.node? nodeId with
  | none => .error (.unknownNode nodeId)
  | some n =>
    let renameInput (n : Node) : Node := { n with inputs := renameIn portId name n.inputs }
    let renameOutput (n : Node) : Node := { n with outputs := renameIn portId name n.outputs }
    if n.hasInput portId then .ok { f with nodes := updateFirst nodeId renameInput f.nodes }
    else if n.hasOutput portId then .ok { f with nodes := updateFirst nodeId renameOutput f.nodes }
    else .error (.unknownPort portId nodeId)

/-- Moves a node on the canvas. -/
def moveNode (f : Flow) (nodeId : String) (position : Position) : Except EditError Flow :=
  let f := f.settled
  if f.hasNode nodeId then
    .ok { f with nodes := updateFirst nodeId (fun n => { n with position := position }) f.nodes }
  else .error (.unknownNode nodeId)

/-- Removes the nodes with the given id and every connection that touches them. -/
def deleteNode (f : Flow) (nodeId : String) : Except EditError Flow :=
  if f.hasNode nodeId then
    let f := f.settled
    .ok { f with
      nodes := (f.liveNodes.filter (fun n => n.id != nodeId)).map some
      connections := (f.liveConnections.filter
        (fun c => c.sourceNode != nodeId && c.targetNode != nodeId)).map some }
  else .error (.unknownNode nodeId)

/-- Adds a connection from an output port to an input port that has none yet. A connection without
an id gets a fresh one. -/
def addConnection (f : Flow) (c : Connection) (supply : Supply) :
    Except EditError (Flow × Connection) × Supply :=
  match f.node? c.sourceNode with
  | none => (.error (.unknownNode c.sourceNode), supply)
  | some source =>
    match f.node? c.targetNode with
    | none => (.error (.unknownNode c.targetNode), supply)
    | some target =>
      if !source.hasOutput c.sourcePort then
        (.error (.unknownOutput c.sourcePort source.id), supply)
      else if !target.hasInput c.targetPort then
        (.error (.unknownInput c.targetPort target.id), supply)
      else
        match f.incoming? c.targetNode c.targetPort with
        | some existing => (.error (.inputOccupied c.targetPort target.id existing.id), supply)
        | none =>
          let (id, supply) := if c.id.isEmpty then supply.nextId "conn" else (c.id, supply)
          let c := { c with id := id }
          let f := f.settled
          (.ok ({ f with connections := f.connections ++ [some c] }, c), supply)

/-- Removes the connections with the given id. -/
def deleteConnection (f : Flow) (id : String) : Flow :=
  let f := f.settled
  { f with connections := (f.liveConnections.filter (fun c => c.id != id)).map some }

end Flow

end FlowScript
