import FlowScript.Proofs.Flow.Alike
import FlowScript.Proofs.Script.Normal
import FlowScript.Proofs.Script.Outline

/-!
# Scripts of flows that are alike

Flows that differ only in the escapes of rows have scripts that differ only in the escapes of the
literals that hold the rows. The order, the imports and the findings are the same.

## Main definitions

- `SameRows` — two texts without blanks are documents that say the same
- `SameScript` — scripts are the same but for the escapes in the literals of rows
- `Collected.Alike` — the same was gathered but for the escapes of rows

## Main results

- `collectNode_alike`, `collect_alike` — gathering one node, and all of them
- `blockLines_alike` — the block of a node
- `Flow.Alike.sameScript_compile` — what flows that are alike are compiled to
-/

namespace FlowScript

open Json Text

/-! ## Nodes -/

theorem Flow.Alike.exists_eq {f g : Flow} (h : f.Alike g) :
    ∃ nodes, g = { f with nodes := nodes } ∧
      List.Forall₂ (Option.Rel Node.Alike) f.nodes nodes :=
  ⟨g.nodes, (congrArg (fun rest : Flow => { rest with nodes := g.nodes }) h.rest).symm, h.nodes⟩

theorem Node.Alike.exists_eq {n m : Node} (h : n.Alike m) :
    ∃ payload, m = { n with payload := payload } ∧ Option.Rel Payload.Alike n.payload payload :=
  ⟨m.payload, (congrArg (fun rest : Node => { rest with payload := m.payload }) h.rest).symm,
    h.payload⟩

/-- Only files can differ. -/
theorem eq_or_file_of_rel {o o' : Option Payload} (h : Option.Rel Payload.Alike o o') :
    (o' = o ∧ ∀ d, o ≠ some (.file d)) ∨
      ∃ d e, o = some (.file d) ∧ o' = some (.file e) ∧ d.Alike e := by
  cases h with
  | none => exact .inl ⟨rfl, nofun⟩
  | some h =>
    cases h with
    | @file d e h => exact .inr ⟨d, e, rfl, rfl, h⟩
    | other hne => exact .inl ⟨rfl, fun d hd => hne d (Option.some.inj hd)⟩

section

variable {n m : Node} (h : n.Alike m)
include h

theorem Node.Alike.function?_eq : m.function? = n.function? := by
  rcases eq_or_file_of_rel h.payload with ⟨heq, -⟩ | ⟨d, e, hd, he, -⟩
  · rw [Node.function?, heq, Node.function?]
  · rw [Node.function?, he, Node.function?, hd]

theorem Node.Alike.subFlow?_eq : m.subFlow? = n.subFlow? := by
  rcases eq_or_file_of_rel h.payload with ⟨heq, -⟩ | ⟨d, e, hd, he, -⟩
  · rw [Node.subFlow?, heq, Node.subFlow?]
  · rw [Node.subFlow?, he, Node.subFlow?, hd]

theorem Node.Alike.output?_eq : m.output? = n.output? := by
  rcases eq_or_file_of_rel h.payload with ⟨heq, -⟩ | ⟨d, e, hd, he, -⟩
  · rw [Node.output?, heq, Node.output?]
  · rw [Node.output?, he, Node.output?, hd]

theorem Node.Alike.file?_rel : Option.Rel FileData.Alike n.file? m.file? := by
  rcases eq_or_file_of_rel h.payload with ⟨heq, hne⟩ | ⟨d, e, hd, he, hfile⟩
  · have hnone : n.file? = none := by
      unfold Node.file?
      split
      · next d hd => exact absurd hd (hne d)
      · rfl
    have hsame : m.file? = n.file? := by rw [Node.file?, heq, Node.file?]
    rw [hsame, hnone]
    exact .none
  · have hfirst : n.file? = some d := by rw [Node.file?, hd]
    have hsecond : m.file? = some e := by rw [Node.file?, he]
    rw [hfirst, hsecond]
    exact .some hfile

end

/-! ## Rows -/

theorem SameContent.symm {rows rows' : List Char} (h : SameContent rows rows') : SameContent rows' rows := by
  obtain ⟨t, t', ht, ht', hsame⟩ := h
  exact ⟨t', t, ht', ht, hsame.symm⟩

theorem spells_null : Spells "null".toList .null := by
  rfl

theorem SameContent.eq_null {rows : List Char} (h : SameContent "null".toList rows) :
    rows = "null".toList := by
  obtain ⟨t, t', ht, ht', hsame⟩ := h
  obtain rfl := Except.ok.inj (ht.spells.symm.trans spells_null)
  cases t' with
  | null =>
    obtain ⟨spacing, depth, hrows⟩ := ht'.spaced
    exact hrows
  | _ => simp [Tree.content] at hsame

theorem SameContent.ne_nil {rows rows' : List Char} (h : SameContent rows rows') : rows ≠ [] := by
  obtain ⟨t, -, ht, -⟩ := h
  rintro rfl
  cases ht.spells

namespace Script

theorem eq_null_iff {rows rows' : List Char} (h : SameContent rows rows') :
    rows = "null".toList ↔ rows' = "null".toList := by
  constructor
  · rintro rfl
    exact h.eq_null
  · rintro rfl
    exact h.symm.eq_null

theorem rowsOf?_rel {d e : FileData} (h : d.Alike e) :
    Option.Rel SameContent (rowsOf? d) (rowsOf? e) := by
  unfold rowsOf?
  obtain ⟨-, hpreview⟩ := h
  generalize d.preview = o at hpreview
  generalize e.preview = o' at hpreview
  cases hpreview with
  | none => exact .none
  | @some p q hrel =>
    obtain ⟨-, hrows⟩ := hrel
    dsimp only
    generalize p.rows = o at hrows
    generalize q.rows = o' at hrows
    cases hrows with
    | none => exact .none
    | @some rows rows' hsame =>
      have hiff := eq_null_iff hsame
      by_cases hnull : rows = "null".toList
      · simp [hnull, hiff.mp hnull]
      · have hfirst : (rows.isEmpty || rows == "null".toList) = false := by
          rw [Bool.or_eq_false_iff, List.isEmpty_eq_false_iff, beq_eq_false_iff_ne]
          exact ⟨hsame.ne_nil, hnull⟩
        have hsecond : (rows'.isEmpty || rows' == "null".toList) = false := by
          rw [Bool.or_eq_false_iff, List.isEmpty_eq_false_iff, beq_eq_false_iff_ne]
          exact ⟨hsame.symm.ne_nil, mt hiff.mpr hnull⟩
        simp only [hfirst, hsecond]
        exact .some hsame

/-! ## What is gathered -/

/-- A document that is spelled without blanks. -/
structure SpellsCompactly (rows : List Char) (t : Tree) : Prop where
  spells : Spells rows t
  compact : rows = t.compact .plain

/-- Two texts without blanks are documents that say the same: numbers digit for digit, members in
the same order. -/
def SameRows (rows rows' : List Char) : Prop :=
  ∃ t t', SpellsCompactly rows t ∧ SpellsCompactly rows' t' ∧ t.content = t'.content

theorem spellsCompactly_compact {rows : List Char} {t : Tree} (h : Spells rows t) :
    SpellsCompactly (t.compact .plain) t := by
  obtain ⟨hwf, hdepth⟩ := fits_of_parse h
  refine ⟨?_, rfl⟩
  rw [Spells, parse_compact hwf (by omega), respelled_plain]

/-- Entries of one place whose rows say the same. -/
def SameEntry (entry entry' : Nat × List Char) : Prop :=
  entry.1 = entry'.1 ∧ SameRows entry.2 entry'.2

/-- What was gathered, with other rows. -/
def Collected.withRows (c : Collected) (rows : List (Nat × List Char)) : Collected :=
  { c with rows := rows }

/-- The same was gathered but for the escapes of rows. -/
structure Collected.Alike (c c' : Collected) : Prop where
  rest : c.withRows [] = c'.withRows []
  rows : List.Forall₂ SameEntry c.rows c'.rows

theorem Collected.Alike.exists_eq {c c' : Collected} (h : c.Alike c') :
    ∃ rows, c' = c.withRows rows ∧ List.Forall₂ SameEntry c.rows rows :=
  ⟨c'.rows, (congrArg (withRows · c'.rows) h.rest).symm, h.rows⟩

/-- A node at one place under one name, the same but for the escapes in rows. -/
structure Placed.Alike (p q : Placed) : Prop where
  place : p.place = q.place
  name : p.name = q.name
  node : p.node.Alike q.node

theorem Placed.Alike.exists_eq {p q : Placed} (h : p.Alike q) :
    ∃ n, q = { p with node := n } ∧ p.node.Alike n := by
  obtain ⟨place, name, n⟩ := q
  obtain ⟨rfl, rfl, hnode⟩ := h
  exact ⟨n, rfl, hnode⟩

/-- What is found about a node does not tell a file from another. -/
theorem mismatchNotes_alike {n m : Node} (h : n.Alike m) : mismatchNotes m = mismatchNotes n := by
  obtain ⟨payload, rfl, hpayload⟩ := h.exists_eq
  rcases eq_or_file_of_rel hpayload with ⟨rfl, -⟩ | ⟨d, e, hd, rfl, -⟩
  · rfl
  · rw [mismatchNotes, mismatchNotes, hd]
    rfl

namespace Placed.Alike

variable {p q : Placed} (h : p.Alike q)

include h

theorem kind_eq : q.node.kind = p.node.kind :=
  (congrArg Node.kind h.node.rest).symm

theorem id_eq : q.node.id = p.node.id :=
  (congrArg Node.id h.node.rest).symm

theorem nodeName_eq : q.node.name = p.node.name :=
  (congrArg Node.name h.node.rest).symm

theorem call?_eq : q.call? = p.call? := by
  rw [call?, h.node.function?_eq, ← h.name, call?]

theorem calls_eq : q.calls = p.calls := by
  rw [calls, h.kind_eq, h.call?_eq, ← h.place, calls]

theorem definition?_eq : q.definition? = p.definition? := by
  rw [definition?, h.kind_eq, h.call?_eq, codeOf, h.node.function?_eq, h.nodeName_eq, h.id_eq,
    definition?, codeOf]

theorem bindings_eq : q.bindings = p.bindings := by
  have hports : q.node.outputPorts = p.node.outputPorts :=
    (congrArg Node.outputPorts h.node.rest).symm
  rw [bindings, outputs, h.kind_eq, h.call?_eq, hports, h.id_eq, ← h.name, bindings, outputs]

theorem missing_eq : q.missing = p.missing := by
  rw [missing, h.kind_eq, h.node.function?_eq, ← h.name, missing]
  simp only [missingNote, h.nodeName_eq, h.id_eq]

/-- Both nodes have rows that say the same, or neither has any. -/
theorem rows?_rel : Option.Rel SameRows p.rows? q.rows? := by
  have hfile := h.node.file?_rel
  unfold rows?
  generalize p.node.file? = o at hfile
  generalize q.node.file? = o' at hfile
  cases hfile with
  | none => exact .none
  | some hfile =>
    have hrows := rowsOf?_rel hfile
    dsimp only
    generalize rowsOf? _ = o at hrows
    generalize rowsOf? _ = o' at hrows
    cases hrows with
    | none => exact .none
    | @some rows rows' hsame =>
      obtain ⟨t, t', ⟨ht, -⟩, ⟨ht', -⟩, hcontent⟩ := hsame
      have hrows : SameRows (t.compact .plain) (t'.compact .plain) :=
        ⟨t, t', spellsCompactly_compact ht, spellsCompactly_compact ht', hcontent⟩
      rw [Spells] at ht ht'
      simp only [ht, ht']
      exact .some hrows

/-- The rows of both nodes can be read. -/
theorem previewNotes_eq : q.previewNotes = p.previewNotes := by
  have hfile := h.node.file?_rel
  unfold previewNotes
  generalize p.node.file? = o at hfile
  generalize q.node.file? = o' at hfile
  cases hfile with
  | none => rfl
  | some hfile =>
    have hrows := rowsOf?_rel hfile
    dsimp only
    generalize rowsOf? _ = o at hrows
    generalize rowsOf? _ = o' at hrows
    cases hrows with
    | none => rfl
    | @some rows rows' hsame =>
      obtain ⟨t, t', ⟨ht, -⟩, ⟨ht', -⟩, -⟩ := hsame
      rw [Spells] at ht ht'
      simp only [ht, ht']

theorem rows_rel : List.Forall₂ SameEntry p.rows q.rows := by
  have hrows := h.rows?_rel
  rw [rows, rows, h.kind_eq, ← h.place]
  generalize p.rows? = o at hrows
  generalize q.rows? = o' at hrows
  split
  · cases hrows with
    | none => exact .nil
    | some hsame => exact .cons ⟨rfl, hsame⟩ .nil
  · exact .nil

theorem statements_eq : q.statements = p.statements := by
  have hrows := h.rows?_rel
  rw [statements, h.kind_eq, codeOf, h.node.function?_eq, statements, codeOf]
  generalize p.rows? = o at hrows
  generalize q.rows? = o' at hrows
  cases hrows <;> rfl

theorem complaints_eq : q.complaints = p.complaints := by
  have hfile : q.node.file?.isSome = p.node.file?.isSome := by
    have hrel := h.node.file?_rel
    generalize p.node.file? = o at hrel
    generalize q.node.file? = o' at hrel
    cases hrel <;> rfl
  rw [complaints, h.kind_eq, h.node.function?_eq, hfile, h.node.subFlow?_eq, h.node.output?_eq,
    h.previewNotes_eq, mismatchNotes_alike h.node, complaints]
  simp only [unsupportedNote, h.nodeName_eq, h.id_eq]

end Placed.Alike

/-- Gathering one node. -/
theorem collectNode_alike {c c' : Collected} (h : c.Alike c') {p q : Placed} (hp : p.Alike q) :
    (collectNode c p.place p.name p.node).Alike (collectNode c' q.place q.name q.node) := by
  obtain ⟨rows, rfl, hrows⟩ := h.exists_eq
  rw [collectNode_eq, collectNode_eq]
  constructor
  case rest =>
    simp only [Placed.addTo, Placed.notes, Placed.redefinition, Collected.withRows, hp.statements_eq,
      hp.definition?_eq, hp.calls_eq, hp.bindings_eq, hp.complaints_eq, hp.missing_eq]
  case rows => exact List.rel_append hrows hp.rows_rel

/-- Gathering all nodes. -/
theorem foldl_collectNode_alike {nodes nodes' : List Placed}
    (hnodes : List.Forall₂ Placed.Alike nodes nodes') {c c' : Collected} (h : c.Alike c') :
    (nodes.foldl (fun c p => collectNode c p.place p.name p.node) c).Alike
      (nodes'.foldl (fun c p => collectNode c p.place p.name p.node) c') := by
  induction hnodes generalizing c c' with
  | nil => exact h
  | cons hp _ ih => exact ih (collectNode_alike h hp)

theorem collect_alike {nodes nodes' : List Placed} (h : List.Forall₂ Placed.Alike nodes nodes') :
    (collect nodes).Alike (collect nodes') :=
  foldl_collectNode_alike h ⟨rfl, .nil⟩

/-! ## Blocks -/

/-- The line that holds the rows of a tabular input. -/
def rowsLine (nodeName : String) (rows : List Char) : String :=
  tableVariable nodeName ++ "_json_data_str = " ++ String.ofList (stringLiteral rows)

/-- Texts of scripts are the same but for the escapes in the literals of rows. -/
inductive SameScript : String → String → Prop
  | same (s : String) : SameScript s s
  | rows (nodeName : String) {rows rows' : List Char} (h : SameRows rows rows') :
      SameScript (rowsLine nodeName rows) (rowsLine nodeName rows')
  | append {s s' t t' : String} (h : SameScript s t) (h' : SameScript s' t') :
      SameScript (s ++ s') (t ++ t')

theorem SameScript.forall₂_same (parts : List String) : List.Forall₂ SameScript parts parts :=
  List.forall₂_same.mpr fun s _ => .same s

theorem SameScript.intercalate {parts parts' : List String} (sep : String)
    (h : List.Forall₂ SameScript parts parts') :
    SameScript (String.intercalate sep parts) (String.intercalate sep parts') := by
  induction h with
  | nil => exact .same _
  | @cons s t rest rest' hfirst hrest ih =>
    cases hrest with
    | nil => simpa using hfirst
    | cons h hrest =>
      rw [String.intercalate_cons_of_ne_nil (List.cons_ne_nil _ _),
        String.intercalate_cons_of_ne_nil (List.cons_ne_nil _ _)]
      exact (hfirst.append (.same sep)).append ih

theorem lookup_rel {entries entries' : List (Nat × List Char)}
    (h : List.Forall₂ SameEntry entries entries') (place : Nat) :
    Option.Rel SameRows (entries.lookup place) (entries'.lookup place) := by
  induction h with
  | nil => exact .none
  | @cons entry entry' _ _ hentry _ ih =>
    obtain ⟨i, rows⟩ := entry
    obtain ⟨j, rows'⟩ := entry'
    obtain ⟨rfl : i = j, hrows⟩ := hentry
    rw [List.lookup_cons, List.lookup_cons]
    cases place == i with
    | true => exact .some hrows
    | false => exact ih

section

variable {c c' : Collected} (h : c.Alike c') {p q : Placed} (hp : p.Alike q)
include h hp

theorem tableLines_alike : List.Forall₂ SameScript (tableLines c p) (tableLines c' q) := by
  obtain ⟨m, rfl, hn⟩ := hp.exists_eq
  have hrows := lookup_rel h.rows p.place
  have hfile := hn.file?_rel
  obtain ⟨payload, rfl, -⟩ := hn.exists_eq
  unfold tableLines
  dsimp only
  generalize c.rows.lookup p.place = o at hrows
  generalize c'.rows.lookup p.place = o' at hrows
  cases hrows with
  | some hrows => exact .cons (.rows p.name hrows) (.cons (.same _) .nil)
  | none =>
    dsimp only
    generalize p.node.file? = o at hfile
    generalize Node.file? _ = o' at hfile
    cases hfile with
    | none => exact SameScript.forall₂_same _
    | @some d e hfile =>
      have hname : e.fileName = d.fileName := (congrArg FileData.fileName hfile.rest).symm
      simp only [hname]
      exact SameScript.forall₂_same _

/-- Blocks read no nodes of the flow but their own. -/
theorem bodyLines_alike (f : Flow) (nodes : List (Option Node)) :
    List.Forall₂ SameScript (bodyLines f c p) (bodyLines { f with nodes := nodes } c' q) := by
  have htable := tableLines_alike h hp
  obtain ⟨m, rfl, hn⟩ := hp.exists_eq
  have hcall : callLines { f with nodes := nodes } c' { p with node := m } = callLines f c p := by
    obtain ⟨rows, rfl, -⟩ := h.exists_eq
    obtain ⟨payload, rfl, -⟩ := hn.exists_eq
    rfl
  have hsink : sinkLines { f with nodes := nodes } c' { p with node := m } = sinkLines f c p := by
    obtain ⟨rows, rfl, -⟩ := h.exists_eq
    obtain ⟨payload, rfl, -⟩ := hn.exists_eq
    rfl
  have hsubFlow : subFlowLines { p with node := m } = subFlowLines p := by
    have hreference := hn.subFlow?_eq
    obtain ⟨payload, rfl, -⟩ := hn.exists_eq
    simp only [subFlowLines, hreference]
  have hkind : m.kind = p.node.kind := (congrArg Node.kind hn.rest).symm
  rw [bodyLines, bodyLines, hcall, hsink, hsubFlow, hkind]
  cases p.node.kind with
  | csvInput => exact htable
  | excelInput => exact htable
  | _ => exact SameScript.forall₂_same _

theorem blockLines_alike (f : Flow) (nodes : List (Option Node)) :
    List.Forall₂ SameScript (blockLines f c p) (blockLines { f with nodes := nodes } c' q) := by
  have hbody := bodyLines_alike h hp f nodes
  obtain ⟨m, rfl, hn⟩ := hp.exists_eq
  obtain ⟨payload, rfl, -⟩ := hn.exists_eq
  exact .cons (.same _) (List.rel_append hbody (SameScript.forall₂_same _))

end

/-! ## Plans -/

theorem getElem?_rel {α β : Type} {R : α → β → Prop} {as : List α} {bs : List β}
    (h : List.Forall₂ R as bs) (i : Nat) : Option.Rel R as[i]? bs[i]? := by
  induction h generalizing i with
  | nil => exact .none
  | cons hfirst _ ih =>
    cases i with
    | zero => exact .some hfirst
    | succ i => simpa using ih i

section

variable {f g : Flow} (h : f.Alike g)
include h

theorem liveNodes_alike : List.Forall₂ Node.Alike f.liveNodes g.liveNodes :=
  List.rel_filterMap (fun _ _ h => h) h.nodes

theorem map_outline_eq : g.liveNodes.map Node.outline = f.liveNodes.map Node.outline :=
  (map_eq_map_of_forall₂ (liveNodes_alike h) fun _ _ hn => hn.rest).symm

/-- Flows that are alike have one outline. -/
theorem outline_ofFlow : (Graph.ofFlow g).outline = (Graph.ofFlow f).outline := by
  have hnodes := map_outline_eq h
  have hedge : Graph.edgeIn? g.liveNodes = Graph.edgeIn? f.liveNodes := by
    funext c
    rw [← Graph.edgeIn?_outline, hnodes, Graph.edgeIn?_outline]
  have hwires : g.liveConnections = f.liveConnections := by
    obtain ⟨nodes, rfl, -⟩ := h.exists_eq
    rfl
  simp only [Graph.ofFlow, Graph.outline, hedge, hnodes, hwires]

theorem ordering_eq : Ordering.ofGraph (Graph.ofFlow g) = Ordering.ofGraph (Graph.ofFlow f) := by
  rw [← Ordering.ofGraph_outline, outline_ofFlow h, Ordering.ofGraph_outline]

theorem nodeNames_eq : nodeNames g.liveNodes = nodeNames f.liveNodes := by
  have hids : ∀ nodes : List Node, nodes.map (·.id) = (nodes.map Node.outline).map (·.id) := by
    intro nodes
    rw [List.map_map]
    rfl
  rw [nodeNames, hids, map_outline_eq h, ← hids, nodeNames]

theorem placedNodes_alike (places : List Nat) :
    List.Forall₂ Placed.Alike (placedNodes f.liveNodes places) (placedNodes g.liveNodes places) := by
  unfold placedNodes
  rw [nodeNames_eq h]
  refine List.rel_filterMap ?_ (List.forall₂_same.mpr fun _ _ => rfl)
  rintro i _ rfl
  have hnode := getElem?_rel (liveNodes_alike h) i
  show Option.Rel Placed.Alike (f.liveNodes[i]?.map _) (g.liveNodes[i]?.map _)
  generalize f.liveNodes[i]? = o at hnode
  generalize g.liveNodes[i]? = o' at hnode
  cases hnode with
  | none => exact .none
  | some hnode => exact .some ⟨rfl, rfl, hnode⟩

theorem plan_nodes_alike :
    List.Forall₂ Placed.Alike (Plan.ofFlow f).nodes (Plan.ofFlow g).nodes := by
  show List.Forall₂ Placed.Alike (placedNodes f.liveNodes (Ordering.ofGraph (Graph.ofFlow f)).places)
    (placedNodes g.liveNodes (Ordering.ofGraph (Graph.ofFlow g)).places)
  rw [ordering_eq h]
  exact placedNodes_alike h _

theorem plan_collected_alike : (Plan.ofFlow f).collected.Alike (Plan.ofFlow g).collected :=
  collect_alike (plan_nodes_alike h)

/-! ## Scripts -/

theorem blocks_alike : List.Forall₂ SameScript
    ((Plan.ofFlow f).nodes.map (block f (Plan.ofFlow f).collected))
    ((Plan.ofFlow g).nodes.map (block g (Plan.ofFlow g).collected)) := by
  have hcollected := plan_collected_alike h
  have hnodes : List.Forall₂ (fun q p => q ∈ (Plan.ofFlow g).nodes ∧ p.Alike q)
      (Plan.ofFlow g).nodes (Plan.ofFlow f).nodes :=
    forall₂_imp_of_mem (plan_nodes_alike h).flip fun q hq p hpq => ⟨hq, hpq⟩
  rw [List.forall₂_map_left_iff, List.forall₂_map_right_iff]
  refine forall₂_imp_of_mem hnodes.flip ?_
  rintro p hp q ⟨hq, hpq⟩
  rw [block_eq hp, block_eq hq]
  refine SameScript.intercalate "\n" ?_
  have hlines := blockLines_alike hcollected hpq f g.nodes
  obtain ⟨nodes, hg, -⟩ := h.exists_eq
  have hsame : { f with nodes := g.nodes } = g := by rw [hg]
  rw [hsame] at hlines
  rw [List.forall₂_map_left_iff, List.forall₂_map_right_iff]
  exact hlines.imp fun _ _ hline => (SameScript.same indent).append hline

omit h in
theorem driver_alike {blocks blocks' : List String} (h : List.Forall₂ SameScript blocks blocks') :
    SameScript (driver blocks) (driver blocks') := by
  have hblocks : SameScript
      (if blocks.isEmpty then "" else String.intercalate "\n\n" blocks ++ "\n\n")
      (if blocks'.isEmpty then "" else String.intercalate "\n\n" blocks' ++ "\n\n") := by
    cases h with
    | nil => exact .same _
    | cons hfirst hrest => exact (SameScript.intercalate "\n\n" (.cons hfirst hrest)).append (.same _)
  delta driver
  exact (((((SameScript.same _).append hblocks).append (.same _)).append (.same _)).append
    (.same _)).append (.same _) |>.append (.same _)

omit h in
/-- The script behind its header. -/
def scriptBody (f : Flow) (plan : Plan) : String :=
  String.intercalate "\n" plan.collected.imports ++ "\n\n\n"
    ++ String.join (plan.collected.definitions.map (fun d => d.text ++ "\n\n\n"))
    ++ driver (plan.nodes.map (block f plan.collected))

omit h in
theorem assemble_eq (f : Flow) (plan : Plan) (stamp : String) :
    assemble f plan stamp = header f stamp ++ scriptBody f plan := by
  delta assemble scriptBody
  simp only [String.append_assoc]

theorem scriptBody_alike :
    SameScript (scriptBody f (Plan.ofFlow f)) (scriptBody g (Plan.ofFlow g)) := by
  have hblocks := driver_alike (blocks_alike h)
  obtain ⟨rows, hrows, -⟩ := (plan_collected_alike h).exists_eq
  have himports : (Plan.ofFlow g).collected.imports = (Plan.ofFlow f).collected.imports := by
    rw [hrows]
    rfl
  have hdefinitions : (Plan.ofFlow g).collected.definitions =
      (Plan.ofFlow f).collected.definitions := by
    rw [hrows]
    rfl
  delta scriptBody
  rw [himports, hdefinitions]
  exact (SameScript.same _).append hblocks

end

/-- The header with its time made neutral. -/
def normalHeader (f : Flow) (stamp : String) : String :=
  if stamp.isEmpty then header f stamp
  else
    String.ofList (replaceFirst (Compiled.headerStamp stamp).toList
      (Compiled.headerStamp Compiled.normalStamp).toList (header f stamp).toList)

theorem contains_header (f : Flow) (stamp : String) :
    contains (Compiled.headerStamp stamp).toList (header f stamp).toList = true := by
  delta header
  rw [String.toList_append, String.toList_append, List.append_assoc]
  exact contains_append_self _ _

/-- Only the header of a script is made neutral. -/
theorem normalized_compileAt (f : Flow) (stamp : String) :
    (f.compileAt stamp).normalized.script =
      normalHeader f stamp ++ scriptBody f (Plan.ofFlow f) := by
  have hscript : (f.compileAt stamp).script = header f stamp ++ scriptBody f (Plan.ofFlow f) :=
    assemble_eq f _ stamp
  have htime : (f.compileAt stamp).generatedAt = stamp := rfl
  rw [Compiled.normalized, htime, hscript, normalHeader]
  by_cases hstamp : stamp.isEmpty
  · simp only [hstamp, if_true]
  · simp only [hstamp, Bool.false_eq_true, if_false]
    rw [String.toList_append, replaceFirst_append (contains_header f stamp), String.ofList_append,
      String.ofList_toList]

end Script

open Script

/-- Flows that are alike are compiled to the same script but for the escapes in the literals of rows,
once the time has been made neutral. -/
theorem Flow.Alike.sameScript_compile {f g : Flow} (h : f.Alike g) (clock : Clock) :
    SameScript (f.compile clock).1.normalized.script (g.compile clock).1.normalized.script := by
  cases clock with
  | error reason => exact .same _
  | ok now =>
    have hheader : normalHeader g now.utc.stamp = normalHeader f now.utc.stamp := by
      obtain ⟨nodes, rfl, -⟩ := h.exists_eq
      rfl
    show SameScript (f.compileAt _).normalized.script (g.compileAt _).normalized.script
    rw [normalized_compileAt, normalized_compileAt, hheader]
    exact (SameScript.same _).append (scriptBody_alike h)

end FlowScript
