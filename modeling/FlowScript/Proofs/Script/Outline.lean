import FlowScript.Script.Collect

/-!
# What the order of the blocks reads of a flow

The ids, names and positions of the nodes and the connections between them decide in which order the
blocks stand and what is found on the way. What the nodes carry has no part in it.

## Main definitions

- `Node.outline`, `Graph.outline` — nodes without what they carry

## Main results

- `Script.Ordering.ofGraph_outline` — the order is that of the outline
-/

namespace FlowScript

/-- A node without what it carries. -/
def Node.outline (n : Node) : Node :=
  { n with payload := none }

namespace Graph

/-- A graph of nodes without what they carry. -/
def outline (g : Graph) : Graph :=
  { g with nodes := g.nodes.map Node.outline }

theorem placeIn_outline (nodes : List Node) (id : String) :
    placeIn (nodes.map Node.outline) id = placeIn nodes id :=
  List.findIdx?_map

theorem edgeIn?_outline (nodes : List Node) (c : Connection) :
    edgeIn? (nodes.map Node.outline) c = edgeIn? nodes c := by
  rw [edgeIn?, edgeIn?, placeIn_outline, placeIn_outline]

variable (g : Graph)

@[simp] theorem edges_outline : g.outline.edges = g.edges :=
  rfl

@[simp] theorem size_outline : g.outline.size = g.size :=
  List.length_map _

/-- What outlines keep is read off the nodes alike. -/
theorem map_getElem?_outline {α : Type} (field : Node → α)
    (h : ∀ n, field n.outline = field n) (i : Nat) : (g.outline.nodes[i]?).map field = (g.nodes[i]?).map field := by
  rw [outline, List.getElem?_map, Option.map_map]
  exact congrArg (fun field => (g.nodes[i]?).map field) (funext h)

@[simp] theorem idsAt_outline (places : List Nat) : g.outline.idsAt places = g.idsAt places := by
  simp only [idsAt, g.map_getElem?_outline Node.id fun _ => rfl]

@[simp] theorem targets_outline (i : Nat) : g.outline.targets i = g.targets i :=
  rfl

@[simp] theorem inDegree_outline (i : Nat) : g.outline.inDegree i = g.inDegree i :=
  rfl

@[simp] theorem sources_outline (i : Nat) : g.outline.sources i = g.sources i := by
  simp [sources]

@[simp] theorem dependencies_outline (id : String) : g.outline.dependencies id = g.dependencies id := by
  simp only [dependencies, place?, outline, placeIn_outline]
  cases placeIn g.nodes id with
  | none => rfl
  | some i => exact (g.idsAt_outline _).trans (congrArg g.idsAt (g.sources_outline i))

@[simp] theorem isSelfLooped_outline (i : Nat) : g.outline.isSelfLooped i = g.isSelfLooped i :=
  rfl

@[simp] theorem neighbours_outline (i : Nat) : g.outline.neighbours i = g.neighbours i := by
  simp [neighbours]

/-! ## Orders and cycles -/

theorem run_outline (steps : Nat) (p : Placing) :
    Placing.run g.outline steps p = Placing.run g steps p := by
  induction steps generalizing p with
  | zero => rfl
  | succ steps ih => exact ih _

@[simp] theorem placed_outline : g.outline.placed = g.placed := by
  have hstart : Placing.start g.outline = Placing.start g := by simp [Placing.start]
  rw [placed, size_outline, hstart, run_outline, placed]

@[simp] theorem isOrdered_outline : g.outline.isOrdered = g.isOrdered := by
  simp [isOrdered]

@[simp] theorem canvasOrder_outline : g.outline.canvasOrder = g.canvasOrder := by
  simp only [canvasOrder, size_outline, g.map_getElem?_outline Node.position fun _ => rfl]

theorem visit_outline (fuel : Nat) (i : Nat) (w : Walk) :
    Walk.visit g.outline fuel i w = Walk.visit g fuel i w := by
  induction fuel generalizing i w with
  | zero => rfl
  | succ fuel ih => simp only [Walk.visit, neighbours_outline, ih]

@[simp] theorem cycles_outline : g.outline.cycles = g.cycles := by
  simp only [cycles, components, Walk.all, size_outline, isSelfLooped_outline, visit_outline]

end Graph

namespace Script

variable (g : Graph)

@[simp] theorem waitsFor_outline (placedIds : List String) (n : Node) :
    waitsFor g.outline placedIds n = waitsFor g placedIds n := by
  have hname : ∀ id, (g.outline.nodes.find? (·.id == id)).map (·.name) =
      (g.nodes.find? (·.id == id)).map (·.name) := by
    intro id
    rw [Graph.outline, List.find?_map, Option.map_map]
    rfl
  simp only [waitsFor, Graph.dependencies_outline, hname]

@[simp] theorem blockedNotes_outline (placedIds cycleIds : List String) :
    blockedNotes g.outline placedIds cycleIds = blockedNotes g placedIds cycleIds := by
  simp only [blockedNotes, waitsFor_outline]
  rw [Graph.outline, List.filter_map, List.map_map]
  rfl

/-- The order is that of the outline. -/
theorem Ordering.ofGraph_outline : Ordering.ofGraph g.outline = Ordering.ofGraph g := by
  have hids : g.outline.idsAt = g.idsAt := funext g.idsAt_outline
  simp only [Ordering.ofGraph, Graph.isOrdered_outline, Graph.placed_outline, Graph.cycles_outline,
    Graph.canvasOrder_outline, hids, blockedNotes_outline]
  rfl

end Script

end FlowScript
