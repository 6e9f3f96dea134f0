import FlowScript.Flow.Basic
import FlowScript.Text.Quoted

/-!
# Structural issues

What is wrong with the structure of a flow. Issues are findings and never stop anything: a flow with
issues still compiles. Nodes are reported in order, each with its ports, then connections in order.
-/

namespace FlowScript

/-- The kinds of structural issues. -/
inductive IssueKind where
  | duplicateNode
  | duplicatePort
  | danglingNode
  | danglingPort
  | notInputPort
  | notOutputPort
  | inputOvercommitted
  | unknownKind
  | dataKindMismatch
  deriving DecidableEq

/-- The name of a kind of issue in reports. -/
def IssueKind.name : IssueKind → String
  | duplicateNode => "duplicate_node"
  | duplicatePort => "duplicate_port"
  | danglingNode => "dangling_node"
  | danglingPort => "dangling_port"
  | notInputPort => "not_input_port"
  | notOutputPort => "not_output_port"
  | inputOvercommitted => "input_overcommitted"
  | unknownKind => "unknown_kind"
  | dataKindMismatch => "data_kind_mismatch"

/-- One finding. Ids that do not apply are empty. -/
structure Issue where
  kind : IssueKind
  nodeId : String := ""
  portId : String := ""
  connectionId : String := ""
  message : String

/-- The finding in one line. -/
def Issue.text (i : Issue) : String :=
  i.kind.name ++ ": " ++ i.message

/-- The node carries nothing, or what its kind calls for. -/
def Node.carriesFitting (n : Node) : Bool :=
  match n.payload with
  | none => true
  | some _ =>
    match n.kind with
    | .function => n.function?.isSome
    | .csvInput | .excelInput => n.file?.isSome
    | .subFlow => n.subFlow?.isSome
    | .output => n.output?.isSome
    | .other _ => false

/-- The name of what a node carries, for messages. -/
def Node.payloadName (n : Node) : String :=
  match n.payload with
  | some p => p.shape.typeName
  | none => "<nil>"

namespace Issue

/-- The issue of a node whose id an earlier node has. -/
def ofRepeatedId (n : Node) (seen : List String) : List Issue :=
  if seen.contains n.id then
    [{ kind := .duplicateNode, nodeId := n.id
       message := "node id " ++ quoted n.id ++ " is used more than once" }]
  else []

/-- The issue of a node of an unsupported kind, or with a payload of the wrong variant. -/
def ofKind (n : Node) : List Issue :=
  if !n.kind.isSupported then
    [{ kind := .unknownKind, nodeId := n.id
       message := "node " ++ quoted n.id ++ " has unknown type " ++ quoted n.kind.name }]
  else if !n.carriesFitting then
    [{ kind := .dataKindMismatch, nodeId := n.id
       message := "node " ++ quoted n.id ++ " of type " ++ n.kind.name ++ " carries "
         ++ n.payloadName ++ " data" }]
  else []

/-- The issues of the ports of a node, when the ids in `seen` are taken. -/
def ofPorts (nodeId : String) : List String → List Port → List Issue
  | _, [] => []
  | seen, p :: rest =>
    if seen.contains p.id then
      { kind := .duplicatePort, nodeId := nodeId, portId := p.id
        message := "port id " ++ quoted p.id ++ " is used more than once" }
        :: ofPorts nodeId seen rest
    else ofPorts nodeId (p.id :: seen) rest

/-- The issues of the nodes, when the given node and port ids are taken. -/
def ofNodes (nodeIds portIds : List String) : List Node → List Issue
  | [] => []
  | n :: rest =>
    ofRepeatedId n nodeIds ++ ofKind n ++ ofPorts n.id portIds n.ports
      ++ ofNodes (n.id :: nodeIds) (n.ports.map (·.id) ++ portIds) rest

/-- The issue of a connection whose source is not an output port of its source node. -/
def ofSource (source : Node) (c : Connection) : List Issue :=
  if source.hasOutput c.sourcePort then []
  else
    [{ kind := if source.hasInput c.sourcePort then .notOutputPort else .danglingPort
       nodeId := source.id, portId := c.sourcePort, connectionId := c.id
       message := "connection " ++ quoted c.id ++ " source " ++ quoted c.sourcePort
         ++ " is not an output port of " ++ quoted source.id }]

/-- The key under which an input port is remembered. -/
def inputKey (c : Connection) : String :=
  c.targetNode ++ "/" ++ c.targetPort

/-- The issues of the connections. `taken` lists the input ports that an earlier connection feeds,
with the id of that connection. -/
def ofConnections (f : Flow) (taken : List (String × String)) : List Connection → List Issue
  | [] => []
  | c :: rest =>
    match f.node? c.sourceNode, f.node? c.targetNode with
    | some source, some target =>
      ofSource source c ++
        if !target.hasInput c.targetPort then
          { kind := if target.hasOutput c.targetPort then .notInputPort else .danglingPort
            nodeId := target.id, portId := c.targetPort, connectionId := c.id
            message := "connection " ++ quoted c.id ++ " target " ++ quoted c.targetPort
              ++ " is not an input port of " ++ quoted target.id }
            :: ofConnections f taken rest
        else
          match taken.lookup (inputKey c) with
          | some first =>
            { kind := .inputOvercommitted, nodeId := target.id, portId := c.targetPort
              connectionId := c.id
              message := "input " ++ quoted c.targetPort ++ " already fed by connection "
                ++ quoted first }
              :: ofConnections f taken rest
          | none => ofConnections f ((inputKey c, c.id) :: taken) rest
    | _, _ =>
      { kind := .danglingNode, connectionId := c.id
        message := "connection " ++ quoted c.id ++ " references missing node(s) "
          ++ quoted c.sourceNode ++ " -> " ++ quoted c.targetNode }
        :: ofConnections f taken rest

end Issue

/-- The structural issues of a flow. -/
def Flow.issues (f : Flow) : List Issue :=
  Issue.ofNodes [] [] f.liveNodes ++ Issue.ofConnections f [] f.liveConnections

end FlowScript
