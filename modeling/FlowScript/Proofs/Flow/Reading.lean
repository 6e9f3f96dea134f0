import FlowScript.Flow.Document
import FlowScript.Proofs.Json.Data
import FlowScript.Proofs.Json.Parts

/-!
# Reading the parts of a flow document

What is written for a part of a flow is read back without complaint, wherever it stands and whatever
blanks stand between its tokens. A reading that complains of nothing is a pure value, so every
statement is an equation `reading = pure value`.

## Main definitions

- `ReadAs` — what is written for a document is read as a value
- `Fills` — members that turn one value into another, one after the other

## Main results

- `Fills.record` — a written record is read by filling in its members one by one
- `Fills.of_part` — members may stand in any order when each of them adds its own part
- `Position.reads`, `Port.fills`, … — every part is read back
-/

namespace FlowScript

open Json Text Reading

namespace Reading

/-! ## Single values -/

section Single

variable (markup : Markup)

@[simp] theorem inside_pure {α : Type} (record member : String) (a : α) :
    inside record member (pure a) = pure a := rfl

@[simp] theorem run_pure {α : Type} (a : α) : run (pure a) = .ok a := rfl

@[simp] theorem textOf_respelled (wanted old s : String) :
    textOf wanted old ((Tree.text s).respelled markup) = pure s := by
  rw [Tree.text, Tree.respelled, textOf, unescape_respell_escape]

@[simp] theorem text_respelled (old s : String) :
    text old ((Tree.text s).respelled markup) = pure s :=
  textOf_respelled markup "string" old s

theorem real_respelled {x : Binary64} (h : ReadsBack x) (old : Double) :
    real old ((Tree.real x).respelled markup) = pure (.finite x) := by
  rw [Tree.real, Tree.respelled, real, h]

theorem intOf_respelled {n : Int} (h : IsInt64 n) (wanted : String) (old : Int) :
    intOf wanted old ((Tree.int n).respelled markup) = pure n := by
  rw [Tree.int, Tree.respelled, intOf, wholeNumber?_signedDecimal h]

theorem value_respelled {v : Value} (h : v.Storable) (old : Value) :
    value old (v.toTree.respelled markup) = pure v := by
  rw [value, ofTree_respelled v.wellFormed_toTree, ofTree_toTree h]

end Single

/-! ## Written documents -/

/-- What is written for a document, at some depth and with its markup escaped, is read as `b`. -/
def ReadAs {β : Type} (spacing : Spacing) (depth : Nat) (read : Written → β) (t : Tree) (b : β) :
    Prop :=
  ∀ w : Written, w.Shows .escaped spacing depth t → read w = b

variable {spacing : Spacing} {depth : Nat} {α : Type}

theorem readAs_null {β : Type} {read : Written → β} {b : β} (h : ∀ w, w.tree = .null → read w = b) :
    ReadAs spacing depth read .null b :=
  fun w hw => h w hw.tree

/-! ## Lists -/

section Lists

variable {fresh : α} {fill : α → Written → Reading α}

theorem items_eq_pure {ts : List Tree} {as : List α} {ws : List Written}
    (hws : List.Forall₂ (fun t w => w.Shows .escaped spacing depth t) ts ws)
    (h : List.Forall₂ (fun t a => ReadAs spacing depth (fill fresh) t (pure a)) ts as) :
    items fresh fill [] ws = pure as := by
  induction h generalizing ws with
  | nil =>
    cases hws
    rfl
  | cons hhead _ ih =>
    cases hws with
    | cons hw hws =>
      rw [items, hhead _ hw, ih hws]
      rfl

/-- A written list is read item by item. -/
theorem readAs_list {ts : List Tree} {as : List α}
    (h : List.Forall₂ (fun t a => ReadAs spacing (depth + 1) (fill fresh) t (pure a)) ts as)
    (wanted : String) {old : Option (List α)} (hold : old.getD [] = []) :
    ReadAs spacing depth (list wanted fresh fill old) (.array ts) (pure (some as)) := by
  intro w hw
  have hitems := Written.items_spaced hw.wellFormed hw.tree hw.begins
  have htree := hw.tree
  rw [Tree.respelled] at htree
  rw [list, htree, hold, items_eq_pure hitems h]
  rfl

theorem readAs_list_map {write : α → Tree} {as : List α}
    (h : ∀ a ∈ as, ReadAs spacing (depth + 1) (fill fresh) (write a) (pure a)) (wanted : String)
    {old : Option (List α)} (hold : old.getD [] = []) :
    ReadAs spacing depth (list wanted fresh fill old) (.array (as.map write)) (pure (some as)) := by
  refine readAs_list ?_ wanted hold
  rw [List.forall₂_map_left_iff, List.forall₂_same]
  exact h

end Lists

theorem readAs_texts {old : Option (List String)} (hold : old.getD [] = []) (items : List String) :
    ReadAs spacing depth (texts old) (.texts items) (pure (some items)) := by
  refine readAs_list_map (fun s _ w hw => ?_) "[]string" hold
  rw [hw.tree, text_respelled]

theorem readAs_textsTree {old : Option (List String)} (hold : old.getD [] = [])
    (items : Option (List String)) :
    ReadAs spacing depth (texts old) (textsTree items) (pure items) := by
  cases items with
  | none => exact readAs_null fun w hw => by rw [texts, list, hw]
  | some items => exact readAs_texts hold items

/-! ## Records -/

/-- Filling in written members turns one value into another without complaint. -/
inductive Fills (spacing : Spacing) (depth : Nat) (fill : α → String → Written → Reading α) :
    List (String × Tree) → α → α → Prop
  | nil (a : α) : Fills spacing depth fill [] a a
  | cons {key : String} {t : Tree} {ms : List (String × Tree)} {a b c : α}
      (h : ReadAs spacing depth (fill a key) t (pure b)) (hrest : Fills spacing depth fill ms b c) :
      Fills spacing depth fill ((key, t) :: ms) a c

theorem respelled_record (markup : Markup) (members : List (String × Tree)) :
    (Tree.record members).respelled markup =
      .object (members.map (fun m => (respell markup (escape .plain m.1.toList),
        m.2.respelled markup))) := by
  rw [Tree.record, Tree.respelled, respelledMembers_eq_map, List.map_map]
  rfl

variable {fill : α → String → Written → Reading α}

theorem Fills.foldlM_eq {ms : List (String × Tree)} {a b : α} (h : Fills spacing depth fill ms a b)
    {ws : List (List Char × Written)}
    (hws : List.Forall₂ (fun m v => v.1 = respell .escaped (escape .plain m.1.toList) ∧
      v.2.Shows .escaped spacing depth m.2) ms ws) :
    ws.foldlM (fun a m => fill a (String.ofList (unescape m.1)) m.2) a = pure b := by
  induction h generalizing ws with
  | nil =>
    cases hws
    rfl
  | cons hread _ ih =>
    cases hws with
    | cons hw hws =>
      obtain ⟨hkey, hshows⟩ := hw
      rw [List.foldlM_cons, hkey, unescape_respell_escape, hread _ hshows, pure_bind]
      exact ih hws

/-- A written record in front of a text is read by filling in its members. -/
theorem Fills.record_of_begins {ms : List (String × Tree)} {a b : α}
    (h : Fills spacing (depth + 1) fill ms a b) (wanted : String) {w : Written}
    (hwf : (Tree.record ms).WellFormed) (htree : w.tree = (Tree.record ms).respelled .escaped)
    (htext : (Tree.record ms).spaced .escaped spacing depth <+: w.text) :
    record wanted fill a w = pure b := by
  have hmembers := Written.members_spaced hwf htree htext
  rw [List.forall₂_map_left_iff] at hmembers
  rw [respelled_record] at htree
  rw [Reading.record, htree]
  exact h.foldlM_eq hmembers

theorem Fills.record {ms : List (String × Tree)} {a b : α}
    (h : Fills spacing (depth + 1) fill ms a b) (wanted : String) :
    ReadAs spacing depth (record wanted fill a) (.record ms) (pure b) :=
  fun _ hw => h.record_of_begins wanted hw.wellFormed hw.tree hw.begins

theorem Fills.entry {ms : List (String × Tree)} {fresh b : α}
    (h : Fills spacing (depth + 1) fill ms fresh b) (wanted : String) :
    ReadAs spacing depth (entry fresh (Reading.record wanted fill) none) (.record ms)
      (pure (some b)) := by
  intro w hw
  have htree := hw.tree
  rw [respelled_record] at htree
  rw [Reading.entry, htree, Option.getD_none, h.record wanted w hw]
  rfl

/-! ## Members in any order -/

/-- Members in any order fill in a value when each of them adds its own part. `part` is what is there
when some keys have been read. -/
theorem Fills.of_part (part : (String → Bool) → α) {members : List (String × Tree)} {b : α}
    (hstep : ∀ has, ∀ m ∈ members, has m.1 = false →
      ReadAs spacing depth (fill (part has) m.1) m.2 (pure (part fun k => has k || k == m.1)))
    (hkeys : (members.map Prod.fst).Nodup)
    (hwhole : part (fun k => (members.map Prod.fst).contains k) = b)
    {ms : List (String × Tree)} (hperm : ms.Perm members) :
    Fills spacing depth fill ms (part fun _ => false) b := by
  have hrun : ∀ (ms : List (String × Tree)) has, (∀ m ∈ ms, m ∈ members ∧ has m.1 = false) →
      (ms.map Prod.fst).Nodup → Fills spacing depth fill ms (part has)
        (part fun k => has k || (ms.map Prod.fst).contains k) := by
    intro ms
    induction ms with
    | nil =>
      intro has _ _
      simpa using Fills.nil (part has)
    | cons m rest ih =>
      intro has hms hkeys
      obtain ⟨⟨hm, hfree⟩, hrest⟩ := List.forall_mem_cons.mp hms
      obtain ⟨hfresh, hkeys⟩ := List.nodup_cons.mp hkeys
      have hstill : ∀ m' ∈ rest, m' ∈ members ∧ (has m'.1 || m'.1 == m.1) = false := by
        intro m' hm'
        have hne : m'.1 ≠ m.1 := fun heq => hfresh (List.mem_map.mpr ⟨m', hm', heq⟩)
        simpa [hne] using hrest m' hm'
      simpa [Bool.or_assoc] using Fills.cons (hstep has m hm hfree) (ih _ hstill hkeys)
  have hall := hrun ms (fun _ => false) (fun m hm => ⟨hperm.mem_iff.mp hm, rfl⟩)
    ((hperm.map _).nodup_iff.mpr hkeys)
  have hsame : (fun k => false || (ms.map Prod.fst).contains k) =
      fun k => (members.map Prod.fst).contains k := by
    funext k
    rw [Bool.false_or, (hperm.map Prod.fst).contains_eq]
  rw [hsame, hwhole] at hall
  exact hall

end Reading

theorem mem_textUnlessEmpty {key s : String} {m : String × Tree} :
    m ∈ textUnlessEmpty key s ↔ s ≠ "" ∧ m = (key, .text s) := by
  unfold textUnlessEmpty
  split
  · next h => simp_all
  · next h => simp_all

@[simp] theorem map_fst_textUnlessEmpty (key s : String) :
    (textUnlessEmpty key s).map Prod.fst = if s = "" then [] else [key] := by
  unfold textUnlessEmpty
  by_cases h : s = "" <;> simp [h]

variable {spacing : Spacing} {depth : Nat}

/-! ## Positions, viewports, ports and connections -/

/-- The written form of finite coordinates. -/
def Position.tree (x y : Binary64) : Tree :=
  .record [("x", .real x), ("y", .real y)]

theorem Position.reads {x y : Binary64} (hx : ReadsBack x) (hy : ReadsBack y) (old : Position) :
    ReadAs spacing depth (Position.read old) (Position.tree x y) (pure ⟨.finite x, .finite y⟩) := by
  refine Fills.record (.cons (b := { old with x := .finite x }) ?_ (.cons ?_ (.nil _))) _
  · intro w hw
    simp +decide [Position.fill, hw.tree, real_respelled .escaped hx]
  · intro w hw
    simp +decide [Position.fill, hw.tree, real_respelled .escaped hy]

/-- The written form of a finite viewport. -/
def Viewport.tree (x y zoom : Binary64) : Tree :=
  .record [("x", .real x), ("y", .real y), ("zoom", .real zoom)]

theorem Viewport.reads {x y zoom : Binary64} (hx : ReadsBack x) (hy : ReadsBack y)
    (hzoom : ReadsBack zoom) (old : Viewport) :
    ReadAs spacing depth (Viewport.read old) (Viewport.tree x y zoom)
      (pure ⟨.finite x, .finite y, .finite zoom⟩) := by
  refine Fills.record (.cons (b := { old with x := .finite x }) ?_
    (.cons (b := { old with x := .finite x, y := .finite y }) ?_ (.cons ?_ (.nil _)))) _
  · intro w hw
    simp +decide [Viewport.fill, hw.tree, real_respelled .escaped hx]
  · intro w hw
    simp +decide [Viewport.fill, hw.tree, real_respelled .escaped hy]
  · intro w hw
    simp +decide [Viewport.fill, hw.tree, real_respelled .escaped hzoom]

/-- The members of a written port. -/
def Port.members (p : Port) : List (String × Tree) :=
  [("id", .text p.id), ("name", .text p.name), ("originalName", .text p.sourceName),
    ("nodeId", .text p.nodeId), ("type", .text p.direction.name)]

/-- A port of which only the members with some keys have been read. -/
def Port.part (p : Port) (has : String → Bool) : Port where
  id := if has "id" then p.id else ""
  name := if has "name" then p.name else ""
  sourceName := if has "originalName" then p.sourceName else ""
  nodeId := if has "nodeId" then p.nodeId else ""
  direction := if has "type" then p.direction else .other ""

theorem Port.nodup_keys (p : Port) : (p.members.map Prod.fst).Nodup := by
  simp [members]

theorem Port.fills {p : Port} (h : Direction.ofName p.direction.name = p.direction)
    {ms : List (String × Tree)} (hperm : ms.Perm p.members) :
    Fills spacing depth Port.fill ms {} p := by
  refine Fills.of_part p.part ?_ p.nodup_keys (by simp [part, members]) hperm
  intro has m hm hfree w hw
  simp only [members, List.mem_cons, List.not_mem_nil, or_false] at hm
  rcases hm with rfl | rfl | rfl | rfl | rfl <;>
    simp +decide [Port.fill, part, hfree, hw.tree, h]

theorem Port.reads {p : Port} (h : Direction.ofName p.direction.name = p.direction) :
    ReadAs spacing depth (Port.read none) p.toTree (pure (some p)) :=
  (Port.fills h (.refl _)).entry _

/-- The members of a written connection. -/
def Connection.members (c : Connection) : List (String × Tree) :=
  [("id", .text c.id), ("sourceNodeId", .text c.sourceNode),
    ("sourceOutputId", .text c.sourcePort), ("targetNodeId", .text c.targetNode),
    ("targetInputId", .text c.targetPort)]

/-- A connection of which only the members with some keys have been read. -/
def Connection.part (c : Connection) (has : String → Bool) : Connection where
  id := if has "id" then c.id else ""
  sourceNode := if has "sourceNodeId" then c.sourceNode else ""
  sourcePort := if has "sourceOutputId" then c.sourcePort else ""
  targetNode := if has "targetNodeId" then c.targetNode else ""
  targetPort := if has "targetInputId" then c.targetPort else ""

theorem Connection.nodup_keys (c : Connection) : (c.members.map Prod.fst).Nodup := by
  simp [members]

theorem Connection.fills (c : Connection) {ms : List (String × Tree)} (hperm : ms.Perm c.members) :
    Fills spacing depth Connection.fill ms {} c := by
  refine Fills.of_part c.part ?_ c.nodup_keys (by simp [part, members]) hperm
  intro has m hm hfree w hw
  simp only [members, List.mem_cons, List.not_mem_nil, or_false] at hm
  rcases hm with rfl | rfl | rfl | rfl | rfl <;>
    simp +decide [Connection.fill, part, hfree, hw.tree]

theorem Connection.reads (c : Connection) :
    ReadAs spacing depth (Connection.read none) c.toTree (pure (some c)) :=
  (c.fills (.refl _)).entry _

/-- Null entries keep their place. -/
theorem readAs_entryTree {α : Type} {fill : α → String → Written → Reading α} {fresh : α}
    {wanted : String} {write : α → Tree} {o : Option α}
    (h : ∀ a ∈ o, ReadAs spacing depth (entry fresh (record wanted fill) none) (write a)
      (pure (some a))) :
    ReadAs spacing depth (entry fresh (record wanted fill) none) (entryTree write o) (pure o) := by
  cases o with
  | none => exact readAs_null fun w hw => by rw [entry, hw]
  | some a => exact h a rfl

theorem portList_reads {ports : List (Option Port)}
    (h : ∀ p, some p ∈ ports → Direction.ofName p.direction.name = p.direction) :
    ReadAs spacing depth (portList []) (.array (ports.map (entryTree Port.toTree))) (pure ports) := by
  have hlist : ReadAs spacing depth (list "[]*model.Port" none Port.read (some []))
      (.array (ports.map (entryTree Port.toTree))) (pure (some ports)) :=
    readAs_list_map (fun o ho => readAs_entryTree fun p hp => Port.reads (h p (hp ▸ ho))) _ rfl
  intro w hw
  rw [portList, hlist w hw]
  rfl

theorem connectionList_reads (connections : List (Option Connection)) :
    ReadAs spacing depth (list "[]*model.Connection" none Connection.read (some []))
      (.array (connections.map (entryTree Connection.toTree))) (pure (some connections)) :=
  readAs_list_map (fun _ _ => readAs_entryTree fun c _ => c.reads) _ rfl

/-! ## Payloads -/

/-- The members of the written payload of a function node. -/
def FunctionData.members (d : FunctionData) : List (String × Tree) :=
  [("code", .text d.code)] ++ textUnlessEmpty "templateId" d.templateId
    ++ textUnlessEmpty "description" d.description

/-- A payload of which only the members with some keys have been read. -/
def FunctionData.part (d : FunctionData) (has : String → Bool) : FunctionData where
  code := if has "code" then d.code else ""
  templateId := if has "templateId" then d.templateId else ""
  description := if has "description" then d.description else ""

theorem FunctionData.nodup_keys (d : FunctionData) : (d.members.map Prod.fst).Nodup := by
  simp only [members, List.map_append, map_fst_textUnlessEmpty]
  split <;> split <;> simp

theorem FunctionData.fills (d : FunctionData) {ms : List (String × Tree)}
    (hperm : ms.Perm d.members) : Fills spacing depth FunctionData.fill ms {} d := by
  refine Fills.of_part d.part ?_ d.nodup_keys ?_ hperm
  · intro has m hm hfree w hw
    simp only [members, List.mem_append, List.mem_singleton, mem_textUnlessEmpty] at hm
    rcases hm with (rfl | ⟨-, rfl⟩) | ⟨-, rfl⟩ <;>
      simp +decide [FunctionData.fill, part, hfree, hw.tree]
  · -- a member that is left out stands for an empty text
    obtain ⟨code, templateId, description⟩ := d
    by_cases h₁ : templateId = "" <;> by_cases h₂ : description = "" <;>
      simp [part, members, h₁, h₂]

/-- The members of the written payload of a sub-flow node. -/
def SubFlowData.members (d : SubFlowData) : List (String × Tree) :=
  textUnlessEmpty "subFlowId" d.subFlowId ++ textUnlessEmpty "description" d.description

/-- A payload of which only the members with some keys have been read. -/
def SubFlowData.part (d : SubFlowData) (has : String → Bool) : SubFlowData where
  subFlowId := if has "subFlowId" then d.subFlowId else ""
  description := if has "description" then d.description else ""

theorem SubFlowData.nodup_keys (d : SubFlowData) : (d.members.map Prod.fst).Nodup := by
  simp only [members, List.map_append, map_fst_textUnlessEmpty]
  split <;> split <;> simp

theorem SubFlowData.fills (d : SubFlowData) {ms : List (String × Tree)}
    (hperm : ms.Perm d.members) : Fills spacing depth SubFlowData.fill ms {} d := by
  refine Fills.of_part d.part ?_ d.nodup_keys ?_ hperm
  · intro has m hm hfree w hw
    simp only [members, List.mem_append, mem_textUnlessEmpty] at hm
    rcases hm with ⟨-, rfl⟩ | ⟨-, rfl⟩ <;> simp +decide [SubFlowData.fill, part, hfree, hw.tree]
  · obtain ⟨subFlowId, description⟩ := d
    by_cases h₁ : subFlowId = "" <;> by_cases h₂ : description = "" <;>
      simp [part, members, h₁, h₂]

/-- The members of the written payload of an output node. -/
def OutputData.members (d : OutputData) : List (String × Tree) :=
  [("outputValue", d.value.toTree)] ++ textUnlessEmpty "outputType" d.valueKind
    ++ textUnlessEmpty "description" d.description

/-- A payload of which only the members with some keys have been read. -/
def OutputData.part (d : OutputData) (has : String → Bool) : OutputData where
  value := if has "outputValue" then d.value else .null
  valueKind := if has "outputType" then d.valueKind else ""
  description := if has "description" then d.description else ""

theorem OutputData.nodup_keys (d : OutputData) : (d.members.map Prod.fst).Nodup := by
  simp only [members, List.map_append, map_fst_textUnlessEmpty]
  split <;> split <;> simp

theorem OutputData.fills {d : OutputData} (h : d.value.Storable) {ms : List (String × Tree)}
    (hperm : ms.Perm d.members) : Fills spacing depth OutputData.fill ms {} d := by
  refine Fills.of_part d.part ?_ d.nodup_keys ?_ hperm
  · intro has m hm hfree w hw
    simp only [members, List.mem_append, List.mem_singleton, mem_textUnlessEmpty] at hm
    rcases hm with (rfl | ⟨-, rfl⟩) | ⟨-, rfl⟩ <;>
      simp +decide [OutputData.fill, part, hfree, hw.tree, value_respelled .escaped h]
  · obtain ⟨value, valueKind, description⟩ := d
    by_cases h₁ : valueKind = "" <;> by_cases h₂ : description = "" <;>
      simp [part, members, h₁, h₂]

/-- The members of a written preview, with the document of its rows. -/
def FilePreview.members (p : FilePreview) (rows : Option Tree) : List (String × Tree) :=
  [("headers", textsTree p.headers), ("firstRow", textsTree p.firstRow)]
    ++ (if p.lastRow.isEmpty then [] else [("lastRow", .texts p.lastRow)])
    ++ [("rowCount", .int p.rowCount)] ++ textUnlessEmpty "error" p.error
    ++ rows.toList.map (fun t => ("jsonData", t))

/-- The members of a written preview, with what is written for its count and the document of its
rows. -/
def FilePreview.listed (p : FilePreview) (count : Tree) (rows : Option Tree) :
    List (String × Tree) :=
  [("headers", textsTree p.headers), ("firstRow", textsTree p.firstRow)]
    ++ (if p.lastRow.isEmpty then [] else [("lastRow", .texts p.lastRow)])
    ++ [("rowCount", count)] ++ textUnlessEmpty "error" p.error
    ++ rows.toList.map (fun t => ("jsonData", t))

/-- A preview of which only the members with some keys have been read. -/
def FilePreview.part (p : FilePreview) (has : String → Bool) : FilePreview where
  headers := if has "headers" then p.headers else none
  firstRow := if has "firstRow" then p.firstRow else none
  lastRow := if has "lastRow" then p.lastRow else []
  rowCount := if has "rowCount" then p.rowCount else 0
  error := if has "error" then p.error else ""
  rows := if has "jsonData" then p.rows else none

theorem FilePreview.nodup_keys (p : FilePreview) (count : Tree) (rows : Option Tree) :
    ((p.listed count rows).map Prod.fst).Nodup := by
  simp only [listed, List.map_append, map_fst_textUnlessEmpty]
  cases rows <;> split <;> split <;> simp

/-- The rows are kept as they are written. -/
theorem FilePreview.fills {p : FilePreview} {count : Tree} {rows : Option Tree}
    (hcount : intOf "int" 0 (count.respelled .escaped) = pure p.rowCount)
    (hrows : p.rows = rows.map (Tree.spaced .escaped spacing depth))
    {ms : List (String × Tree)} (hperm : ms.Perm (p.listed count rows)) :
    Fills spacing depth FilePreview.fill ms {} p := by
  refine Fills.of_part p.part ?_ (p.nodup_keys count rows) ?_ hperm
  · intro has m hm hfree w hw
    have hlast : m ∈ (if p.lastRow.isEmpty then [] else [("lastRow", Tree.texts p.lastRow)]) →
        m = ("lastRow", .texts p.lastRow) := by
      split <;> simp
    simp only [listed, List.mem_append, List.mem_cons, List.not_mem_nil, or_false,
      mem_textUnlessEmpty, List.mem_map, Option.mem_toList] at hm
    rcases hm with ((((rfl | rfl) | hm) | rfl) | ⟨-, rfl⟩) | ⟨t, rfl, rfl⟩
    · have hread := @readAs_textsTree _ _ none rfl p.headers w hw
      simp +decide [FilePreview.fill, part, hfree, hread]
    · have hread := @readAs_textsTree _ _ none rfl p.firstRow w hw
      simp +decide [FilePreview.fill, part, hfree, hread]
    · obtain rfl := hlast hm
      have hread := @readAs_texts _ _ (some []) rfl p.lastRow w hw
      simp +decide [FilePreview.fill, part, hfree, hread]
    · simp +decide [FilePreview.fill, part, hfree, hw.tree, hcount]
    · simp +decide [FilePreview.fill, part, hfree, hw.tree]
    · simp +decide [FilePreview.fill, part, hfree, hrows, hw.text]
  · obtain ⟨headers, firstRow, lastRow, rowCount, error, spelling⟩ := p
    subst hrows
    cases rows <;> by_cases h₁ : lastRow = [] <;> by_cases h₂ : error = "" <;>
      simp [part, listed, h₁, h₂]

/-- Reads the preview of a file. -/
abbrev FilePreview.read (w : Written) : Reading (Option FilePreview) :=
  entry {} (record "model.FilePreview" FilePreview.fill) none w

/-- The members of a written payload of a tabular input, with its written preview. -/
def FileData.members (d : FileData) (preview : Option Tree) : List (String × Tree) :=
  textUnlessEmpty "fileName" d.fileName
    ++ (if d.fileSize = 0 then [] else [("fileSize", .int d.fileSize)])
    ++ preview.toList.map (fun t => ("filePreview", t))
    ++ textUnlessEmpty "description" d.description

/-- The members of a written payload of a tabular input, with what is written for its size and its
preview. -/
def FileData.listed (d : FileData) (size preview : Option Tree) : List (String × Tree) :=
  textUnlessEmpty "fileName" d.fileName ++ size.toList.map (fun t => ("fileSize", t))
    ++ preview.toList.map (fun t => ("filePreview", t))
    ++ textUnlessEmpty "description" d.description

/-- A payload of which only the members with some keys have been read. -/
def FileData.part (d : FileData) (has : String → Bool) : FileData where
  fileName := if has "fileName" then d.fileName else ""
  fileSize := if has "fileSize" then d.fileSize else 0
  preview := if has "filePreview" then d.preview else none
  description := if has "description" then d.description else ""

/-- What is written for the size, which is left out when it is zero. -/
def FileData.size (d : FileData) : Option Tree :=
  if d.fileSize = 0 then none else some (.int d.fileSize)

theorem FileData.members_eq (d : FileData) (preview : Option Tree) :
    d.members preview = d.listed d.size preview := by
  unfold members listed size
  split <;> rfl

theorem FileData.nodup_keys (d : FileData) (size preview : Option Tree) :
    ((d.listed size preview).map Prod.fst).Nodup := by
  simp only [listed, List.map_append, map_fst_textUnlessEmpty]
  cases size <;> cases preview <;> split <;> split <;> simp

theorem FileData.fills {d : FileData} {size preview : Option Tree}
    (hsize : ∀ t ∈ size, intOf "int64" 0 (t.respelled .escaped) = pure d.fileSize)
    (hnone : size = none → d.fileSize = 0)
    (hkept : Option.Rel (fun t p => ReadAs spacing depth FilePreview.read t (pure (some p)))
      preview d.preview)
    {ms : List (String × Tree)} (hperm : ms.Perm (d.listed size preview)) :
    Fills spacing depth FileData.fill ms {} d := by
  refine Fills.of_part d.part ?_ (d.nodup_keys size preview) ?_ hperm
  · intro has m hm hfree w hw
    simp only [listed, List.mem_append, mem_textUnlessEmpty, List.mem_map, Option.mem_toList] at hm
    rcases hm with ((⟨-, rfl⟩ | ⟨t, ht, rfl⟩) | ⟨t, rfl, rfl⟩) | ⟨-, rfl⟩
    · simp +decide [FileData.fill, part, hfree, hw.tree]
    · simp +decide [FileData.fill, part, hfree, hw.tree, hsize t ht]
    · generalize hfound : d.preview = found at hkept
      cases hkept with
      | some hread => simp +decide [FileData.fill, part, hfree, hread w hw, hfound]
    · simp +decide [FileData.fill, part, hfree, hw.tree]
  · obtain ⟨fileName, fileSize, found, description⟩ := d
    cases size <;> cases hkept <;> by_cases h₁ : fileName = "" <;>
      by_cases h₂ : description = "" <;> simp_all [part, listed]

/-! ### Payloads by their kind -/

theorem FunctionData.reads (d : FunctionData) {ms : List (String × Tree)}
    (hperm : ms.Perm d.members) (id : String) : ReadAs spacing depth
      (NodeKind.function.readPayload id) (.record ms) (.ok (.function d)) := by
  intro w hw
  rw [NodeKind.readPayload, (d.fills hperm).record "model.FunctionData" w hw]
  rfl

theorem SubFlowData.reads (d : SubFlowData) {ms : List (String × Tree)}
    (hperm : ms.Perm d.members) (id : String) : ReadAs spacing depth
      (NodeKind.subFlow.readPayload id) (.record ms) (.ok (.subFlow d)) := by
  intro w hw
  rw [NodeKind.readPayload, (d.fills hperm).record "model.SubFlowData" w hw]
  rfl

theorem OutputData.reads {d : OutputData} (h : d.value.Storable) {ms : List (String × Tree)}
    (hperm : ms.Perm d.members) (id : String) : ReadAs spacing depth
      (NodeKind.output.readPayload id) (.record ms) (.ok (.output d)) := by
  intro w hw
  rw [NodeKind.readPayload, (OutputData.fills h hperm).record "model.OutputData" w hw]
  rfl

theorem FileData.reads {d : FileData} {ms : List (String × Tree)}
    (h : Fills spacing (depth + 1) FileData.fill ms {} d) {kind : NodeKind}
    (hkind : kind.isTabular = true) (id : String) :
    ReadAs spacing depth (kind.readPayload id) (.record ms) (.ok (.file d)) := by
  intro w hw
  have hread := h.record "model.FileInputData" w hw
  cases kind with
  | csvInput =>
    rw [NodeKind.readPayload, hread]
    rfl
  | excelInput =>
    rw [NodeKind.readPayload, hread]
    rfl
  | _ => cases hkind

/-! ## Nodes -/

theorem NodeKind.ofName_name {kind : NodeKind} (h : kind.isSupported = true) :
    NodeKind.ofName kind.name = kind := by
  cases kind <;> first | rfl | cases h

/-- The members of a written node, with what is written for its position, its ports and for what it
carries. -/
def Node.listed (n : Node) (position inputs outputs payload : Tree) : List (String × Tree) :=
  [("id", .text n.id), ("type", .text n.kind.name), ("name", .text n.name),
    ("position", position), ("inputs", inputs), ("outputs", outputs)] ++ [("data", payload)]

/-- A node of which only the members with some keys have been read. -/
def Node.part (n : Node) (payload : Written) (has : String → Bool) : NodeDraft where
  node :=
    { id := if has "id" then n.id else ""
      kind := if has "type" then n.kind else .other ""
      name := if has "name" then n.name else ""
      position := if has "position" then n.position else {}
      inputs := if has "inputs" then n.inputs else []
      outputs := if has "outputs" then n.outputs else [] }
  payload := if has "data" then payload else default

theorem Node.nodup_keys (n : Node) (position inputs outputs payload : Tree) :
    ((n.listed position inputs outputs payload).map Prod.fst).Nodup := by
  simp [listed]

/-- What a node carries waits, as it is written, until the rest of the node is read. -/
theorem NodeDraft.fills {n : Node} (hkind : n.kind.isSupported = true)
    {position inputs outputs payload : Tree}
    (hposition : ReadAs spacing depth (Position.read {}) position (pure n.position))
    (hinputs : ReadAs spacing depth (portList []) inputs (pure n.inputs))
    (houtputs : ReadAs spacing depth (portList []) outputs (pure n.outputs)) {carried : Written}
    (hcarried : carried.Shows .escaped spacing depth payload)
    {ms : List (String × Tree)} (hperm : ms.Perm (n.listed position inputs outputs payload)) :
    Fills spacing depth NodeDraft.fill ms {}
      { node := { n with payload := none }, payload := carried } := by
  refine Fills.of_part (n.part carried) ?_ (n.nodup_keys _ _ _ _) ?_ hperm
  · intro has m hm hfree w hw
    simp only [Node.listed, List.cons_append, List.nil_append, List.mem_cons, List.not_mem_nil,
      or_false] at hm
    rcases hm with rfl | rfl | rfl | rfl | rfl | rfl | rfl
    · simp +decide [NodeDraft.fill, Node.part, hfree, hw.tree]
    · simp +decide [NodeDraft.fill, Node.part, hfree, hw.tree, NodeKind.ofName_name hkind]
    · simp +decide [NodeDraft.fill, Node.part, hfree, hw.tree]
    · simp +decide [NodeDraft.fill, Node.part, hfree, hposition w hw]
    · simp +decide [NodeDraft.fill, Node.part, hfree, hinputs w hw]
    · simp +decide [NodeDraft.fill, Node.part, hfree, houtputs w hw]
    · have hsame : w = carried := Written.eq_of_text_eq (hw.text.trans hcarried.text.symm)
      simp +decide [NodeDraft.fill, Node.part, hfree, hsame]
  · simp [Node.part, Node.listed]

/-! ## Flows -/

/-- The members of a written flow, with what is written for its nodes, its connections and its
viewport. -/
def Flow.listed (f : Flow) (nodes connections viewport : Tree) : List (String × Tree) :=
  [("id", .text f.id), ("name", .text f.name), ("nodes", nodes), ("connections", connections),
    ("viewport", viewport)] ++ textUnlessEmpty "createdAt" f.createdAt

/-- A flow of which only the members with some keys have been read. -/
def Flow.part (f : Flow) (has : String → Bool) : Flow where
  id := if has "id" then f.id else ""
  name := if has "name" then f.name else ""
  nodes := if has "nodes" then f.nodes else []
  connections := if has "connections" then f.connections else []
  viewport := if has "viewport" then f.viewport else {}
  createdAt := if has "createdAt" then f.createdAt else ""

theorem Flow.nodup_keys (f : Flow) (nodes connections viewport : Tree) :
    ((f.listed nodes connections viewport).map Prod.fst).Nodup := by
  simp only [listed, List.map_append, map_fst_textUnlessEmpty]
  split <;> simp

theorem Flow.fills {f : Flow} (hnodesListed : f.nodesListed = true)
    (hconnectionsListed : f.connectionsListed = true) {nodes connections viewport : Tree}
    (hnodes : ReadAs spacing depth (list "[]*model.Node" none nodeEntry (some [])) nodes
      (pure (some f.nodes)))
    (hconnections : ReadAs spacing depth (list "[]*model.Connection" none Connection.read (some []))
      connections (pure (some f.connections)))
    (hviewport : ReadAs spacing depth (Viewport.read {}) viewport (pure f.viewport))
    {ms : List (String × Tree)} (hperm : ms.Perm (f.listed nodes connections viewport)) :
    Fills spacing depth Flow.fill ms {} f := by
  refine Fills.of_part f.part ?_ (f.nodup_keys nodes connections viewport) ?_ hperm
  · intro has m hm hfree w hw
    simp only [listed, List.mem_append, List.mem_cons, List.not_mem_nil, or_false,
      mem_textUnlessEmpty] at hm
    rcases hm with (rfl | rfl | rfl | rfl | rfl) | ⟨-, rfl⟩
    · simp +decide [Flow.fill, part, hfree, hw.tree]
    · simp +decide [Flow.fill, part, hfree, hw.tree]
    · simp +decide [Flow.fill, part, hfree, hnodes w hw]
    · simp +decide [Flow.fill, part, hfree, hconnections w hw]
    · simp +decide [Flow.fill, part, hfree, hviewport w hw]
    · simp +decide [Flow.fill, part, hfree, hw.tree]
  · obtain ⟨id, name, all, wires, viewport, createdAt, _, _⟩ := f
    by_cases h : createdAt = "" <;> simp_all [part, listed]

end FlowScript
