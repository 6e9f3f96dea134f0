import FlowScript.Flow.Basic

/-!
# The dependency graph of a flow

The nodes of a flow by their place in the list, with one edge per connection whose ends both exist.
An edge is attached to the first node that has the id; a later node with the same id has no edges.
Parallel connections give parallel edges, and a node wired to itself has an edge to itself.
-/

namespace FlowScript

/-- The nodes of a flow with the edges between their places. -/
structure Graph where
  nodes : List Node
  /-- Source and target of every connection with two ends, in order. -/
  edges : List (Nat × Nat)
  /-- The connections that name a node that is not there. -/
  dangling : List Connection

namespace Graph

/-- The place of the first node with the given id. -/
def placeIn (nodes : List Node) (id : String) : Option Nat :=
  nodes.findIdx? (fun n => n.id == id)

/-- The edge of a connection, if both of its ends exist. -/
def edgeIn? (nodes : List Node) (c : Connection) : Option (Nat × Nat) :=
  match placeIn nodes c.sourceNode, placeIn nodes c.targetNode with
  | some source, some target => some (source, target)
  | _, _ => none

/-- The graph of a flow. -/
def ofFlow (f : Flow) : Graph :=
  { nodes := f.liveNodes
    edges := f.liveConnections.filterMap (edgeIn? f.liveNodes)
    dangling := f.liveConnections.filter (fun c => (edgeIn? f.liveNodes c).isNone) }

/-- The number of nodes. -/
def size (g : Graph) : Nat :=
  g.nodes.length

/-- The place of the first node with the given id. -/
def place? (g : Graph) (id : String) : Option Nat :=
  placeIn g.nodes id

/-- The ids of the nodes at the given places. -/
def idsAt (g : Graph) (places : List Nat) : List String :=
  places.filterMap (fun i => (g.nodes[i]?).map (·.id))

/-- The nodes at the given places. -/
def nodesAt (g : Graph) (places : List Nat) : List Node :=
  places.filterMap (fun i => g.nodes[i]?)

/-- The targets of the edges that leave a node, one per edge. -/
def targets (g : Graph) (i : Nat) : List Nat :=
  (g.edges.filter (fun e => e.1 == i)).map (·.2)

/-- The number of edges into a node. -/
def inDegree (g : Graph) (i : Nat) : Nat :=
  (g.edges.filter (fun e => e.2 == i)).length

/-- The places of the nodes that a node reads from, in flow order. -/
def sources (g : Graph) (i : Nat) : List Nat :=
  (List.range g.size).filter (fun j => g.edges.contains (j, i))

/-- The ids of the nodes that the first node with the given id reads from, in flow order. -/
def dependencies (g : Graph) (id : String) : List String :=
  match g.place? id with
  | none => []
  | some i => g.idsAt (g.sources i)

/-- The node at a place is wired to itself. -/
def isSelfLooped (g : Graph) (i : Nat) : Bool :=
  g.edges.contains (i, i)

/-- The ids of the nodes that are wired to themselves, in flow order. -/
def selfLoops (g : Graph) : List String :=
  g.idsAt ((List.range g.size).filter g.isSelfLooped)

/-- The different nodes that the edges of a node lead to, without the node itself, in flow order. -/
def neighbours (g : Graph) (i : Nat) : List Nat :=
  (List.range g.size).filter (fun j => j != i && g.edges.contains (i, j))

/-- The number of different edges between different nodes. -/
def linkCount (g : Graph) : Nat :=
  ((List.range g.size).map (fun i => (g.neighbours i).length)).foldl (· + ·) 0

end Graph

end FlowScript
