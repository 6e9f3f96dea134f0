import FlowScript.Graph.Basic

/-!
# Cycles

The groups of nodes that feed each other. A depth-first walk numbers the nodes; a node from which no
edge leads to an older node that is still open closes a group. Groups of one node count only when
the node is wired to itself.
-/

namespace FlowScript.Graph

/-- The state of the walk. Numbers are given in order of the first visit; `low` is the least number
known to be reachable from a node without leaving the open nodes. -/
structure Walk where
  next : Nat := 0
  /-- The open nodes, the latest first. -/
  stack : List Nat := []
  number : List (Nat × Nat) := []
  low : List (Nat × Nat) := []
  /-- The finished groups of more than one node, the latest first. -/
  groups : List (List Nat) := []

namespace Walk

/-- The node has been visited. -/
def isVisited (w : Walk) (i : Nat) : Bool :=
  (w.number.lookup i).isSome

/-- The number of a node. -/
def numberOf (w : Walk) (i : Nat) : Nat :=
  (w.number.lookup i).getD 0

/-- The low number of a node. -/
def lowOf (w : Walk) (i : Nat) : Nat :=
  (w.low.lookup i).getD 0

/-- Numbers and opens a node. -/
def enter (w : Walk) (i : Nat) : Walk :=
  { w with
    next := w.next + 1
    stack := i :: w.stack
    number := (i, w.next) :: w.number
    low := (i, w.next) :: w.low }

/-- Lowers the low number of a node. -/
def lower (w : Walk) (i n : Nat) : Walk :=
  { w with low := (i, min (w.lowOf i) n) :: w.low }

/-- Closes the group of a node if the walk found no way to an older open node. -/
def leave (w : Walk) (i : Nat) : Walk :=
  if w.lowOf i = w.numberOf i then
    let group := w.stack.takeWhile (· != i) ++ [i]
    { w with
      stack := (w.stack.dropWhile (· != i)).drop 1
      groups := if 1 < group.length then group.mergeSort (fun a b => a ≤ b) :: w.groups
        else w.groups }
  else w

/-- Visits a node and everything that is reached from it first. The fuel bounds the depth. -/
def visit (g : Graph) : Nat → Nat → Walk → Walk
  | 0, _, w => w
  | fuel + 1, i, w =>
    let follow (w : Walk) (j : Nat) : Walk :=
      if !w.isVisited j then
        let w := visit g fuel j w
        w.lower i (w.lowOf j)
      else if w.stack.contains j then w.lower i (w.numberOf j)
      else w
    ((g.neighbours i).foldl follow (w.enter i)).leave i

/-- Visits every node in order. -/
def all (g : Graph) : Walk :=
  (List.range g.size).foldl (fun w i => if w.isVisited i then w else visit g g.size i w) {}

end Walk

/-- The groups of more than one node that all reach each other, in order of completion, each in flow
order. -/
def components (g : Graph) : List (List Nat) :=
  (Walk.all g).groups.reverse

/-- The cycles of a graph: its components, and the nodes outside of them that are wired to
themselves, in flow order of their first node. -/
def cycles (g : Graph) : List (List Nat) :=
  let groups := g.components
  let loops := (List.range g.size).filter
    (fun i => g.isSelfLooped i && !groups.any (fun group => group.contains i))
  (groups ++ loops.map (fun i => [i])).mergeSort (fun a b => a.headD 0 ≤ b.headD 0)

/-- A cycle in one line. -/
def cycleText (ids : List String) : String :=
  String.intercalate " -> " ids

end FlowScript.Graph
