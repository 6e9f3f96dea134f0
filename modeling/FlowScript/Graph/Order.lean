import FlowScript.Graph.Basic

/-!
# Orders of the nodes

Nodes are placed once everything they read from has been placed. Nodes that wait for nothing are
taken in flow order, and the others in the order in which their last input became ready. Nodes on or
behind a cycle are never placed; then the canvas gives an order instead.
-/

namespace FlowScript.Graph

/-- The state of the placing: how many edges into each node are still to come, which nodes wait to be
placed, and which have been, the latest first. -/
structure Placing where
  pending : List Nat
  queue : List Nat
  placed : List Nat

/-- One edge into `target` has come; the node is ready when it was the last. -/
def Placing.arrive (p : Placing) (target : Nat) : Placing :=
  let left := p.pending.getD target 0 - 1
  { p with
    pending := p.pending.set target left
    queue := if left = 0 then p.queue ++ [target] else p.queue }

/-- Places the node at the head of the queue and lets its edges arrive. -/
def Placing.step (g : Graph) (p : Placing) : Placing :=
  match p.queue with
  | [] => p
  | i :: queue => (g.targets i).foldl Placing.arrive { p with queue := queue, placed := i :: p.placed }

/-- The given number of steps. -/
def Placing.run (g : Graph) : Nat → Placing → Placing
  | 0, p => p
  | n + 1, p => run g n (p.step g)

/-- The placing before any step. -/
def Placing.start (g : Graph) : Placing :=
  let pending := (List.range g.size).map g.inDegree
  { pending := pending
    queue := (List.range g.size).filter (fun i => g.inDegree i == 0)
    placed := [] }

/-- The places of the nodes in dependency order. A node is placed in one step, so as many steps are
made as there are nodes. -/
def placed (g : Graph) : List Nat :=
  (Placing.run g g.size (Placing.start g)).placed.reverse

/-- Every node could be placed. -/
def isOrdered (g : Graph) : Bool :=
  g.placed.length == g.size

/-- One position comes before another: higher up, or as high and further to the left. -/
def before (a b : Position) : Bool :=
  if a.y.eq b.y then a.x.lt b.x else a.y.lt b.y

/-- The places of the nodes from top to bottom and left to right; nodes at one position keep their
order. -/
def canvasOrder (g : Graph) : List Nat :=
  let position (i : Nat) : Position := ((g.nodes[i]?).map (·.position)).getD {}
  (List.range g.size).mergeSort (fun i j => !before (position j) (position i))

end FlowScript.Graph
