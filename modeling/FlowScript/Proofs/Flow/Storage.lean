import FlowScript.Flow.Format
import FlowScript.Proofs.Flow.Reading
import FlowScript.Proofs.Json.Reader

/-!
# Storing flows

A flow that is written as JSON and read again is the same flow, with null entries in their places,
and writing it once more gives the same text. Only the rows of previews come back in another
spelling: with the line breaks that they have in the document, and with markup escaped. A coordinate
that is not finite has no written form, so a flow with one is not written at all.

## Main definitions

- `Flow.stored` — the flow that comes back
- `Flow.Storable` — kinds and payloads match, and every value is one that the format can hold
- `Flow.IsFinite` — all coordinates are finite
- `SameDocument` — two texts are one document up to blanks and the spelling of special characters

## Main results

- `Flow.decode_encode_json` — a stored flow comes back, and is written as the same text; a flow that
  is not finite is refused
-/

namespace FlowScript

open Json Text Reading

/-! ## The flow that comes back -/

/-- How deep the rows of a preview stand in the document of a flow: inside the flow, its list of
nodes, a node, what it carries and the preview. -/
def rowsDepth : Nat := 5

/-- The rows of a preview after they were written and read: on lines of their own, markup escaped. -/
def storedRows (rows : List Char) : List Char :=
  match Json.parse rows with
  | .ok t => t.indented .escaped rowsDepth
  | .error _ => rows

def FilePreview.stored (p : FilePreview) : FilePreview :=
  { p with rows := p.rows.map storedRows }

def Payload.stored : Payload → Payload
  | .file d => .file { d with preview := d.preview.map FilePreview.stored }
  | p => p

def Node.stored (n : Node) : Node :=
  { n with payload := n.payload.map Payload.stored }

/-- A flow whose previews have the rows that come back from a document. -/
def Flow.stored (f : Flow) : Flow :=
  { f with nodes := f.nodes.map (Option.map Node.stored) }

/-- The rows of all previews. -/
def Flow.rows (f : Flow) : List (List Char) :=
  f.liveNodes.filterMap (fun n => (n.file?.bind FileData.preview).bind FilePreview.rows)

/-- A text that holds the given document. -/
def Spells (rows : List Char) (t : Tree) : Prop :=
  Json.parse rows = .ok t

/-- Two texts that hold one document up to blanks and to escapes of special characters. -/
def SameDocument (rows rows' : List Char) : Prop :=
  ∃ t, Spells rows t ∧ Spells rows' (t.respelled .escaped) ∧
    Value.ofTree (t.respelled .escaped) = Value.ofTree t

theorem spells_storedRows {rows : List Char} {t : Tree} (h : Spells rows t) :
    Spells (storedRows rows) (t.respelled .escaped) := by
  unfold Spells at h ⊢
  obtain ⟨hwf, hdepth⟩ := fits_of_parse h
  have hparse : Json.parse (t.indented .escaped rowsDepth ++ []) = .ok (t.respelled .escaped) :=
    parse_indented hwf (by omega) .escaped rowsDepth (by simp)
  rw [List.append_nil] at hparse
  rw [storedRows, h]
  exact hparse

theorem sameDocument_storedRows {rows : List Char} {t : Tree} (h : Spells rows t) :
    SameDocument rows (storedRows rows) :=
  ⟨t, h, spells_storedRows h, ofTree_respelled (fits_of_parse h).wellFormed .escaped⟩

/-! ## Flows that can be stored -/

/-- The variant that a kind calls for. -/
def NodeKind.shape? : NodeKind → Option Shape
  | .function => some .function
  | .csvInput | .excelInput => some .file
  | .subFlow => some .subFlow
  | .output => some .output
  | .other _ => none

/-- Counts are integers of 64 bits, and rows are a document. -/
structure FilePreview.Storable (p : FilePreview) : Prop where
  rowCount : IsInt64 p.rowCount
  rows : ∀ rows ∈ p.rows, ∃ t, Spells rows t

/-- There is content; sizes are integers of 64 bits, and an output value is in its normal form. -/
def Payload.Storable : Payload → Prop
  | .function _ | .subFlow _ => True
  | .file d => IsInt64 d.fileSize ∧ ∀ p ∈ d.preview, p.Storable
  | .output d => d.value.Storable
  | .hollow _ => False

/-- A coordinate is finite. -/
def Double.IsFinite : Double → Prop
  | .finite _ => True
  | _ => False

instance : DecidablePred Double.IsFinite
  | .finite _ => .isTrue trivial
  | .infinity _ | .nan => .isFalse id

/-- A coordinate comes back from its printed form, if it has one. -/
def Double.ReadsBack (x : Double) : Prop :=
  ∀ y, x = .finite y → Json.ReadsBack y

instance : DecidablePred Double.ReadsBack
  | .finite x => decidable_of_iff (Json.ReadsBack x)
      ⟨fun h _ hy => Double.finite.inj hy ▸ h, fun h => h x rfl⟩
  | .infinity _ | .nan => .isTrue nofun

/-- A node of a supported kind that carries what its kind calls for. -/
structure Node.Storable (n : Node) : Prop where
  payload : ∃ p, n.payload = some p ∧ n.kind.shape? = some p.shape ∧ p.Storable
  x : n.position.x.ReadsBack
  y : n.position.y.ReadsBack
  /-- Directions are in their normal form: the two proper ones are not given by their names. -/
  ports : ∀ p, some p ∈ n.inputs ++ n.outputs → Direction.ofName p.direction.name = p.direction

/-- A flow with both of its lists, whose nodes can be stored and whose document is not nested beyond
what the reader allows. -/
structure Flow.Storable (f : Flow) : Prop where
  nodesListed : f.nodesListed = true
  connectionsListed : f.connectionsListed = true
  nodes : ∀ n, some n ∈ f.nodes → n.Storable
  x : f.viewport.x.ReadsBack
  y : f.viewport.y.ReadsBack
  zoom : f.viewport.zoom.ReadsBack
  depth : ∀ t, f.toTree = .ok t → t.depth ≤ maxDepth

/-- The position of a node is finite. -/
def Node.IsFinite (n : Node) : Prop :=
  n.position.x.IsFinite ∧ n.position.y.IsFinite

/-- All coordinates are finite. -/
structure Flow.IsFinite (f : Flow) : Prop where
  nodes : ∀ n, some n ∈ f.nodes → n.IsFinite
  x : f.viewport.x.IsFinite
  y : f.viewport.y.IsFinite
  zoom : f.viewport.zoom.IsFinite

/-! ## Writing, reading and writing again -/

/-- What is written for `a` at a depth is well formed and read as `b`, and `b` is written as the same
text. -/
structure Keeps {ε α β : Type} (depth : Nat) (write : α → Except ε Tree) (read : Written → β)
    (result : α → β) (a b : α) (t : Tree) : Prop where
  written : write a = .ok t
  wellFormed : t.WellFormed
  reads : ReadAs .lines depth read t (result b)
  again : ∃ t', write b = .ok t' ∧ t'.respelled .escaped = t.respelled .escaped

theorem Keeps.same {ε α β : Type} {depth : Nat} {write : α → Except ε Tree} {read : Written → β}
    {result : α → β} {a : α} {t : Tree} (hwrite : write a = .ok t) (hwf : t.WellFormed)
    (hreads : ReadAs .lines depth read t (result a)) : Keeps depth write read result a a t :=
  ⟨hwrite, hwf, hreads, t, hwrite, rfl⟩

theorem wellFormed_textUnlessEmpty (key s : String) :
    ∀ m ∈ textUnlessEmpty key s, m.2.WellFormed := by
  unfold textUnlessEmpty
  split
  · simp
  · simpa using wellFormed_text s

theorem wellFormed_textsTree (items : Option (List String)) : (textsTree items).WellFormed := by
  cases items with
  | none => exact .null
  | some items => exact wellFormed_texts items

/-! ### Previews -/

/-- The written form of a preview. -/
def FilePreview.WritesAs (p : FilePreview) (t : Tree) : Prop :=
  p.toTree = .ok t

theorem FilePreview.toTree_eq {p : FilePreview} {rows : Option Tree}
    (h : Option.Rel Spells p.rows rows) :
    p.toTree = .ok (.record (p.members rows)) := by
  obtain ⟨headers, firstRow, lastRow, rowCount, error, spelling⟩ := p
  cases h with
  | none => rfl
  | @some spelling t hrows =>
    rw [Spells] at hrows
    cases spelling with
    | nil => cases hrows
    | cons c spelling =>
      simp only [FilePreview.toTree, hrows]
      rfl

theorem FilePreview.wellFormed_members (p : FilePreview) {rows : Option Tree}
    (h : ∀ t ∈ rows, t.WellFormed) : ∀ m ∈ p.members rows, m.2.WellFormed := by
  have hlast : ∀ m ∈ (if p.lastRow.isEmpty then [] else [("lastRow", Tree.texts p.lastRow)]),
      m.2.WellFormed := by
    split
    · simp
    · simpa using wellFormed_texts p.lastRow
  simp only [FilePreview.members, List.forall_mem_append, List.forall_mem_cons]
  refine ⟨⟨⟨⟨⟨wellFormed_textsTree _, wellFormed_textsTree _, by simp⟩, hlast⟩, wellFormed_int _,
    by simp⟩, wellFormed_textUnlessEmpty _ _⟩, ?_⟩
  simpa using h

theorem exists_optionRel {α β : Type} {R : α → β → Prop} {o : Option α} (h : ∀ a ∈ o, ∃ b, R a b) :
    ∃ o', Option.Rel R o o' := by
  cases o with
  | none => exact ⟨none, .none⟩
  | some a =>
    obtain ⟨b, hb⟩ := h a rfl
    exact ⟨some b, .some hb⟩

/-- What becomes of rows that hold a document. -/
theorem storedRows_rel {spelling : Option (List Char)} {rows : Option Tree}
    (h : Option.Rel Spells spelling rows) :
    (∀ t ∈ rows, t.WellFormed) ∧
      spelling.map storedRows = rows.map (Tree.spaced .escaped .lines rowsDepth) ∧
      Option.Rel Spells (spelling.map storedRows)
        (rows.map (Tree.respelled .escaped)) := by
  cases h with
  | none => exact ⟨by simp, rfl, .none⟩
  | some hrows =>
    refine ⟨?_, ?_, .some (spells_storedRows hrows)⟩
    · simpa using (fits_of_parse hrows).wellFormed
    · rw [Spells] at hrows
      simp [storedRows, hrows, spaced_lines]

theorem FilePreview.exists_keeps {p : FilePreview} (h : p.Storable) :
    ∃ t, Keeps 4 FilePreview.toTree FilePreview.read (fun p => pure (some p)) p p.stored t := by
  obtain ⟨rows, hrows⟩ := exists_optionRel h.rows
  obtain ⟨hwf, hstored, hagain⟩ := storedRows_rel hrows
  refine ⟨.record (p.members rows), FilePreview.toTree_eq hrows,
    wellFormed_record (p.wellFormed_members hwf), ?_,
    .record (p.members (rows.map (Tree.respelled .escaped))), FilePreview.toTree_eq hagain, ?_⟩
  · have hcount := intOf_respelled .escaped h.rowCount "int" 0
    exact (FilePreview.fills (p := p.stored) hcount hstored (.refl _)).entry "model.FilePreview"
  · cases rows with
    | none => rfl
    | some t =>
      simp [respelled_record, FilePreview.members, respelled_respelled]

/-! ### Payloads -/

theorem Payload.toTree_file {d : FileData} {preview : Option Tree}
    (h : Option.Rel FilePreview.WritesAs d.preview preview) :
    (Payload.file d).toTree = .ok (.record (d.members preview)) := by
  obtain ⟨fileName, fileSize, p, description⟩ := d
  cases h with
  | none => rfl
  | some hp =>
    rw [FilePreview.WritesAs] at hp
    simp only [Payload.toTree, hp]
    rfl

theorem FileData.wellFormed_members (d : FileData) {preview : Option Tree}
    (h : ∀ t ∈ preview, t.WellFormed) : ∀ m ∈ d.members preview, m.2.WellFormed := by
  have hsize : ∀ m ∈ (if d.fileSize = 0 then [] else [("fileSize", Tree.int d.fileSize)]),
      m.2.WellFormed := by
    split
    · simp
    · simpa using wellFormed_int d.fileSize
  simp only [FileData.members, List.forall_mem_append]
  refine ⟨⟨⟨wellFormed_textUnlessEmpty _ _, hsize⟩, ?_⟩, wellFormed_textUnlessEmpty _ _⟩
  simpa using h

/-- What becomes of a preview that can be stored. -/
theorem storedPreview_rel {p : Option FilePreview} {preview : Option Tree}
    (h : Option.Rel (fun p t => Keeps 4 FilePreview.toTree FilePreview.read (fun p => pure (some p))
      p p.stored t) p preview) :
    (∀ t ∈ preview, t.WellFormed) ∧
      Option.Rel FilePreview.WritesAs p preview ∧
      Option.Rel (fun t p => ReadAs .lines 4 FilePreview.read t (pure (some p))) preview
        (p.map FilePreview.stored) ∧
      ∃ preview', Option.Rel FilePreview.WritesAs (p.map FilePreview.stored)
        preview' ∧ preview'.map (Tree.respelled .escaped) = preview.map (Tree.respelled .escaped) := by
  cases h with
  | none => exact ⟨by simp, .none, .none, none, .none, rfl⟩
  | some hp =>
    obtain ⟨t', hagain, hsame⟩ := hp.again
    refine ⟨?_, .some hp.written, .some hp.reads, some t', .some hagain, ?_⟩
    · simpa using hp.wellFormed
    · simp [hsame]

theorem Payload.exists_keeps_file {d : FileData} (hsize : IsInt64 d.fileSize)
    (hpreview : ∀ p ∈ d.preview, p.Storable) {kind : NodeKind} (hshape : kind.shape? = some .file)
    (id : String) :
    ∃ t, Keeps 3 Payload.toTree (kind.readPayload id) .ok (.file d) (Payload.file d).stored t := by
  obtain ⟨preview, hkeeps⟩ :=
    exists_optionRel (fun p hp => FilePreview.exists_keeps (hpreview p hp))
  obtain ⟨hwf, hwrite, hkept, preview', hagain, hsame⟩ := storedPreview_rel hkeeps
  have hsizeRead : ∀ t ∈ d.size, intOf "int64" 0 (t.respelled .escaped) = pure d.fileSize := by
    intro t ht
    obtain ⟨-, rfl⟩ : ¬ d.fileSize = 0 ∧ Tree.int d.fileSize = t := by
      simpa [FileData.size] using ht
    exact intOf_respelled .escaped hsize "int64" 0
  have hmembers : (d.members preview).Perm (d.listed d.size preview) := by
    rw [d.members_eq preview]
  have hfills := FileData.fills (d := { d with preview := d.preview.map FilePreview.stored })
    hsizeRead (by simp [FileData.size]) hkept hmembers
  have htabular : kind.isTabular = true := by
    cases kind <;> first | rfl | cases hshape
  refine ⟨.record (d.members preview), Payload.toTree_file hwrite,
    wellFormed_record (d.wellFormed_members hwf), FileData.reads hfills htabular id,
    .record (d.members preview'), Payload.toTree_file hagain, ?_⟩
  · have hmember : ∀ o : Option Tree,
        (o.toList.map (fun t => ("filePreview", t))).map (fun m =>
          (respell .escaped (escape .plain m.1.toList), m.2.respelled .escaped)) =
        (o.map (Tree.respelled .escaped)).toList.map (fun t =>
          (respell .escaped (escape .plain "filePreview".toList), t)) := by
      intro o
      cases o <;> rfl
    simp only [respelled_record, FileData.members, List.map_append, hmember, hsame]

theorem Payload.exists_keeps {p : Payload} (h : p.Storable) {kind : NodeKind}
    (hshape : kind.shape? = some p.shape) (id : String) :
    ∃ t, Keeps 3 Payload.toTree (kind.readPayload id) .ok p p.stored t := by
  cases p with
  | function d =>
    have hwf : ∀ m ∈ d.members, m.2.WellFormed := by
      simp only [FunctionData.members, List.forall_mem_append]
      refine ⟨⟨?_, wellFormed_textUnlessEmpty _ _⟩, wellFormed_textUnlessEmpty _ _⟩
      simpa using wellFormed_text d.code
    cases kind <;> cases hshape
    exact ⟨.record d.members, .same rfl (wellFormed_record hwf) (d.reads (.refl _) id)⟩
  | subFlow d =>
    have hwf : ∀ m ∈ d.members, m.2.WellFormed :=
      List.forall_mem_append.mpr ⟨wellFormed_textUnlessEmpty _ _, wellFormed_textUnlessEmpty _ _⟩
    cases kind <;> cases hshape
    exact ⟨.record d.members, .same rfl (wellFormed_record hwf) (d.reads (.refl _) id)⟩
  | output d =>
    have hwf : ∀ m ∈ d.members, m.2.WellFormed := by
      simp only [OutputData.members, List.forall_mem_append]
      refine ⟨⟨?_, wellFormed_textUnlessEmpty _ _⟩, wellFormed_textUnlessEmpty _ _⟩
      simpa using d.value.wellFormed_toTree
    cases kind <;> cases hshape
    exact ⟨.record d.members, .same rfl (wellFormed_record hwf) (OutputData.reads h (.refl _) id)⟩
  | file d => exact Payload.exists_keeps_file h.1 h.2 hshape id
  | hollow shape => exact h.elim

/-! ### Coordinates -/

theorem Double.exists_eq_finite {x : Double} (h : x.ReadsBack) (hfinite : x.IsFinite) :
    ∃ y, x = .finite y ∧ Json.ReadsBack y := by
  cases x with
  | finite y => exact ⟨y, rfl, h y rfl⟩
  | infinity _ => exact hfinite.elim
  | nan => exact hfinite.elim

theorem Double.toTree_eq_error {x : Double} (h : ¬ x.IsFinite) : x.toTree = .error x := by
  cases x with
  | finite y => exact absurd trivial h
  | infinity _ => rfl
  | nan => rfl

/-- A list is written in order, so the first entry that has no written form decides the error. -/
theorem exists_mapM_eq_error {ε α β : Type} {write : α → Except ε β} {P : ε → Prop} {as : List α}
    (herror : ∀ a ∈ as, ∀ e, write a = .error e → P e)
    (hsome : ∃ a ∈ as, ∃ e, write a = .error e) : ∃ e, P e ∧ as.mapM write = .error e := by
  induction as with
  | nil => simp at hsome
  | cons a rest ih =>
    rw [List.mapM_cons]
    cases hwrite : write a with
    | error e => exact ⟨e, herror a List.mem_cons_self e hwrite, rfl⟩
    | ok b =>
      have hrest : ∃ a ∈ rest, ∃ e, write a = .error e := by
        obtain ⟨a', ha', e, he⟩ := hsome
        rcases List.mem_cons.mp ha' with rfl | ha'
        · simp [hwrite] at he
        · exact ⟨a', ha', e, he⟩
      obtain ⟨e, hP, he⟩ := ih (fun a' ha' => herror a' (List.mem_cons_of_mem a ha')) hrest
      refine ⟨e, hP, ?_⟩
      rw [he]
      rfl

/-- Coordinates of which one is not finite are not written. -/
theorem exists_coordinates_eq_error {members : List (String × Double)}
    (h : ∃ m ∈ members, ¬ m.2.IsFinite) : ∃ x, ¬ x.IsFinite ∧ coordinates members = .error x := by
  have hwrite : ∀ m : String × Double, ¬ m.2.IsFinite →
      (do return (m.1, ← m.2.toTree) : Except Double (String × Tree)) = .error m.2 := by
    intro m hm
    rw [Double.toTree_eq_error hm]
    rfl
  have herror : ∀ m ∈ members, ∀ x,
      (do return (m.1, ← m.2.toTree) : Except Double (String × Tree)) = .error x → ¬ x.IsFinite := by
    rintro ⟨key, y⟩ _ x hx
    cases y with
    | finite y => cases hx
    | infinity negative => cases hx; exact id
    | nan => cases hx; exact id
  obtain ⟨m, hm, hinfinite⟩ := h
  obtain ⟨x, hx, hmapM⟩ := exists_mapM_eq_error herror ⟨m, hm, m.2, hwrite m hinfinite⟩
  refine ⟨x, hx, ?_⟩
  rw [coordinates, hmapM]
  rfl

theorem Position.exists_toTree_eq_error {p : Position} (h : ¬ (p.x.IsFinite ∧ p.y.IsFinite)) :
    ∃ x, ¬ x.IsFinite ∧ p.toTree = .error x := by
  refine exists_coordinates_eq_error ?_
  by_contra hall
  simp only [List.mem_cons, List.not_mem_nil, or_false, not_exists, not_and, not_not] at hall
  exact h ⟨hall ("x", p.x) (.inl rfl), hall ("y", p.y) (.inr rfl)⟩

theorem Viewport.exists_toTree_eq_error {v : Viewport}
    (h : ¬ (v.x.IsFinite ∧ v.y.IsFinite ∧ v.zoom.IsFinite)) :
    ∃ x, ¬ x.IsFinite ∧ v.toTree = .error x := by
  refine exists_coordinates_eq_error ?_
  by_contra hall
  simp only [List.mem_cons, List.not_mem_nil, or_false, not_exists, not_and, not_not] at hall
  exact h ⟨hall ("x", v.x) (.inl rfl), hall ("y", v.y) (.inr (.inl rfl)),
    hall ("zoom", v.zoom) (.inr (.inr rfl))⟩

theorem Position.exists_eq_finite {p : Position} (hx : p.x.ReadsBack) (hy : p.y.ReadsBack)
    (h : p.x.IsFinite ∧ p.y.IsFinite) :
    ∃ x y, p = ⟨.finite x, .finite y⟩ ∧ Json.ReadsBack x ∧ Json.ReadsBack y := by
  obtain ⟨x, hpx, hx⟩ := Double.exists_eq_finite hx h.1
  obtain ⟨y, hpy, hy⟩ := Double.exists_eq_finite hy h.2
  exact ⟨x, y, by rw [← hpx, ← hpy], hx, hy⟩

theorem Viewport.exists_eq_finite {v : Viewport} (hx : v.x.ReadsBack) (hy : v.y.ReadsBack)
    (hzoom : v.zoom.ReadsBack) (h : v.x.IsFinite ∧ v.y.IsFinite ∧ v.zoom.IsFinite) :
    ∃ x y zoom, v = ⟨.finite x, .finite y, .finite zoom⟩ ∧
      Json.ReadsBack x ∧ Json.ReadsBack y ∧ Json.ReadsBack zoom := by
  obtain ⟨x, hvx, hx⟩ := Double.exists_eq_finite hx h.1
  obtain ⟨y, hvy, hy⟩ := Double.exists_eq_finite hy h.2.1
  obtain ⟨zoom, hvzoom, hzoom⟩ := Double.exists_eq_finite hzoom h.2.2
  exact ⟨x, y, zoom, by rw [← hvx, ← hvy, ← hvzoom], hx, hy, hzoom⟩

theorem Position.wellFormed_tree (x y : Binary64) : (Position.tree x y).WellFormed :=
  wellFormed_record (by simp [wellFormed_real])

theorem Viewport.wellFormed_tree (x y zoom : Binary64) : (Viewport.tree x y zoom).WellFormed :=
  wellFormed_record (by simp [wellFormed_real])

/-! ### Nodes -/

/-- The members of a written node at finite coordinates, with what is written for what it carries. -/
def Node.members (n : Node) (x y : Binary64) (payload : Tree) : List (String × Tree) :=
  n.listed (Position.tree x y) (.array (n.inputs.map (entryTree Port.toTree)))
    (.array (n.outputs.map (entryTree Port.toTree))) payload

theorem Node.toTree_eq {n : Node} {x y : Binary64} (hposition : n.position = ⟨.finite x, .finite y⟩)
    {p : Payload} (hp : n.payload = some p) {payload : Tree} (h : p.toTree = .ok payload) :
    n.toTree = .ok (.record (n.members x y payload)) := by
  simp only [Node.toTree, hp, h, hposition]
  rfl

/-- A node whose position is not finite is not written. -/
theorem Node.exists_toTree_eq_error {n : Node} {p : Payload} (hp : n.payload = some p)
    {payload : Tree} (h : p.toTree = .ok payload) (hfinite : ¬ n.IsFinite) :
    ∃ x, ¬ x.IsFinite ∧ n.toTree = .error (.position x) := by
  obtain ⟨x, hx, hposition⟩ := Position.exists_toTree_eq_error hfinite
  refine ⟨x, hx, ?_⟩
  simp only [Node.toTree, hp, h, hposition]
  rfl

theorem wellFormed_entries {α : Type} {write : α → Tree} (h : ∀ a, (write a).WellFormed)
    (entries : List (Option α)) : (Tree.array (entries.map (entryTree write))).WellFormed := by
  refine .array ?_
  intro t ht
  obtain ⟨o, -, rfl⟩ := List.mem_map.mp ht
  cases o with
  | none => exact .null
  | some a => exact h a

theorem Port.wellFormed_toTree (p : Port) : p.toTree.WellFormed := by
  refine wellFormed_record ?_
  simp [wellFormed_text]

theorem Connection.wellFormed_toTree (c : Connection) : c.toTree.WellFormed := by
  refine wellFormed_record ?_
  simp [wellFormed_text]

theorem Node.wellFormed_members (n : Node) (x y : Binary64) {payload : Tree}
    (h : payload.WellFormed) : ∀ m ∈ n.members x y payload, m.2.WellFormed := by
  simp [members, listed, wellFormed_text, Position.wellFormed_tree,
    wellFormed_entries Port.wellFormed_toTree, h]

theorem NodeKind.isSupported_of_shape? {kind : NodeKind} {shape : Shape}
    (h : kind.shape? = some shape) : kind.isSupported = true := by
  cases kind <;> first | rfl | cases h

theorem depth_le_of_mem_record {ms : List (String × Tree)} {m : String × Tree} (h : m ∈ ms) :
    m.2.depth ≤ (Tree.record ms).depth := by
  have hle := depth_le_membersDepth (List.mem_map_of_mem (f := fun m : String × Tree =>
    (escape .plain m.1.toList, m.2)) h)
  exact Nat.le_succ_of_le hle

/-- A node is read as its own members say, and what it carries is then read by its kind. -/
theorem Node.exists_ofWritten_eq {spacing : Spacing} {depth : Nat} {n : Node} {payload : Tree}
    {ms : List (String × Tree)} (hmem : ("data", payload) ∈ ms)
    (hdraft : ∀ carried : Written, carried.Shows .escaped spacing (depth + 1) payload →
      Fills spacing (depth + 1) NodeDraft.fill ms {}
        { node := { n with payload := none }, payload := carried })
    {w : Written} (hw : w.Shows .escaped spacing depth (.record ms)) :
    ∃ carried : Written, carried.Shows .escaped spacing (depth + 1) payload ∧
      Node.ofWritten w =
        (n.kind.readPayload n.id carried).map fun q => { n with payload := some q } := by
  have hwf : payload.WellFormed := by
    cases hw.wellFormed with
    | object _ hmembers => exact hmembers _ (List.mem_map_of_mem hmem)
  obtain ⟨carried, hcarried⟩ :
      ∃ carried : Written, carried.Shows .escaped spacing (depth + 1) payload :=
    Written.exists_shows hwf (Nat.le_trans (depth_le_of_mem_record hmem) hw.depth_le)
  refine ⟨carried, hcarried, ?_⟩
  rw [Node.ofWritten, (hdraft carried hcarried).record "model.nodeJSON" w hw, run_pure]
  show (do
    let found ← n.kind.readPayload n.id carried
    return { n with payload := some found }) = _
  cases n.kind.readPayload n.id carried <;> rfl

theorem Node.exists_keeps {n : Node} (h : n.Storable) (hfinite : n.IsFinite) :
    ∃ t, Keeps 2 Node.toTree Node.ofWritten .ok n n.stored t := by
  obtain ⟨p, hp, hshape, hstorable⟩ := h.payload
  obtain ⟨payload, hkeeps⟩ := Payload.exists_keeps hstorable hshape n.id
  obtain ⟨payload', hagain, hsame⟩ := hkeeps.again
  obtain ⟨x, y, hposition, hx, hy⟩ := Position.exists_eq_finite h.x h.y hfinite
  have hp' : n.stored.payload = some p.stored := by
    rw [Node.stored, hp]
    rfl
  refine ⟨.record (n.members x y payload), Node.toTree_eq hposition hp hkeeps.written,
    wellFormed_record (n.wellFormed_members x y hkeeps.wellFormed), ?_,
    .record (n.members x y payload'), Node.toTree_eq (n := n.stored) hposition hp' hagain, ?_⟩
  · intro w hw
    have hread : ReadAs .lines 3 (Position.read {}) (Position.tree x y) (pure n.position) := by
      rw [hposition]
      exact Position.reads hx hy {}
    obtain ⟨carried, hcarried, hnode⟩ := Node.exists_ofWritten_eq (by simp [listed])
      (fun carried hcarried => NodeDraft.fills (NodeKind.isSupported_of_shape? hshape) hread
        (portList_reads fun p hp => h.ports p (List.mem_append_left _ hp))
        (portList_reads fun p hp => h.ports p (List.mem_append_right _ hp)) hcarried (.refl _)) hw
    rw [hnode, hkeeps.reads carried hcarried, Node.stored, hp]
    rfl
  · simp [respelled_record, hsame, Node.members, Node.listed]

/-- Null is read as no entry, but no node comes back from it either. -/
theorem nodeEntry_of_ofWritten {w : Written} {n : Node} (h : Node.ofWritten w = .ok n) :
    nodeEntry none w = pure (some n) := by
  unfold nodeEntry
  split
  · next hnull =>
    rw [Node.ofWritten, record, hnull] at h
    cases h
  · rw [h]

/-- A null entry stays null. -/
theorem nodeEntry_exists_keeps {o : Option Node} (h : ∀ n, o = some n → n.Storable)
    (hfinite : ∀ n, o = some n → n.IsFinite) :
    ∃ t, Keeps 2 nodeEntryTree (nodeEntry none) pure o (o.map Node.stored) t := by
  cases o with
  | none => exact ⟨.null, .same rfl .null (readAs_null fun w hw => by rw [nodeEntry, hw])⟩
  | some n =>
    obtain ⟨t, hkeeps⟩ := Node.exists_keeps (h n rfl) (hfinite n rfl)
    exact ⟨t, hkeeps.written, hkeeps.wellFormed,
      fun w hw => nodeEntry_of_ofWritten (hkeeps.reads w hw), hkeeps.again⟩

/-- The entry of a node is written if the position of the node is finite. If it is not, the error
names a coordinate. -/
theorem nodeEntryTree_cases {o : Option Node} (h : ∀ n, o = some n → n.Storable) :
    ((∀ n, o = some n → n.IsFinite) ∧ ∃ t, nodeEntryTree o = .ok t) ∨
      ((∃ n, o = some n ∧ ¬ n.IsFinite) ∧
        ∃ x : Double, ¬ x.IsFinite ∧ nodeEntryTree o = .error (.position x)) := by
  by_cases hfinite : ∀ n, o = some n → n.IsFinite
  · obtain ⟨t, hkeeps⟩ := nodeEntry_exists_keeps h hfinite
    exact .inl ⟨hfinite, t, hkeeps.written⟩
  · push Not at hfinite
    obtain ⟨n, rfl, hinfinite⟩ := hfinite
    obtain ⟨p, hp, hshape, hstorable⟩ := (h n rfl).payload
    obtain ⟨payload, hkeeps⟩ := Payload.exists_keeps hstorable hshape n.id
    exact .inr ⟨⟨n, rfl, hinfinite⟩, Node.exists_toTree_eq_error hp hkeeps.written hinfinite⟩

/-- Nodes of which one has a position that is not finite are not written. -/
theorem nodes_exists_mapM_eq_error {nodes : List (Option Node)}
    (h : ∀ n, some n ∈ nodes → n.Storable) (hinfinite : ∃ n, some n ∈ nodes ∧ ¬ n.IsFinite) :
    ∃ x : Double, ¬ x.IsFinite ∧ nodes.mapM nodeEntryTree = .error (.position x) := by
  have hcases (o : Option Node) (ho : o ∈ nodes) :=
    nodeEntryTree_cases (o := o) fun n hn => h n (hn ▸ ho)
  have herrors : ∀ o ∈ nodes, ∀ e, nodeEntryTree o = .error e →
      ∃ x : Double, ¬ x.IsFinite ∧ e = .position x := by
    intro o ho e he
    rcases hcases o ho with ⟨-, t, ht⟩ | ⟨-, x, hx, herror⟩
    · rw [ht] at he
      cases he
    · rw [herror] at he
      exact ⟨x, hx, (Except.error.inj he).symm⟩
  have hsome : ∃ o ∈ nodes, ∃ e, nodeEntryTree o = .error e := by
    obtain ⟨n, hn, hbad⟩ := hinfinite
    rcases hcases (some n) hn with ⟨hfinite, -⟩ | ⟨-, x, -, herror⟩
    · exact absurd (hfinite n rfl) hbad
    · exact ⟨some n, hn, _, herror⟩
  obtain ⟨_, ⟨x, hx, rfl⟩, herror⟩ := exists_mapM_eq_error herrors hsome
  exact ⟨x, hx, herror⟩

theorem mapM_cons_ok {ε α β : Type} {write : α → Except ε β} {a : α} {as : List α} {b : β}
    {bs : List β} (h : write a = .ok b) (hs : as.mapM write = .ok bs) :
    (a :: as).mapM write = .ok (b :: bs) := by
  rw [List.mapM_cons, h, hs]
  rfl

/-- The entries of a list, each read without regard to the others. -/
theorem exists_keeps_items {ε α : Type} {depth : Nat} {write : α → Except ε Tree}
    {fill : α → Written → Reading α} {fresh : α} {keep : α → α} {as : List α}
    (h : ∀ a ∈ as, ∃ t, Keeps depth write (fill fresh) pure a (keep a) t) :
    ∃ ts ts', as.mapM write = .ok ts ∧ (∀ t ∈ ts, t.WellFormed) ∧
      List.Forall₂ (fun t a => ReadAs .lines depth (fill fresh) t (pure a)) ts (as.map keep) ∧
      (as.map keep).mapM write = .ok ts' ∧
      respelledItems .escaped ts' = respelledItems .escaped ts := by
  induction as with
  | nil => exact ⟨[], [], rfl, by simp, .nil, rfl, rfl⟩
  | cons a rest ih =>
    obtain ⟨t, hkeeps⟩ := h a List.mem_cons_self
    obtain ⟨t', hagain, hsame⟩ := hkeeps.again
    obtain ⟨ts, ts', hwrite, hwf, hreads, hagains, hsames⟩ :=
      ih (fun b hb => h b (List.mem_cons_of_mem a hb))
    refine ⟨t :: ts, t' :: ts', mapM_cons_ok hkeeps.written hwrite, ?_,
      .cons hkeeps.reads hreads, mapM_cons_ok hagain hagains, ?_⟩
    · exact List.forall_mem_cons.mpr ⟨hkeeps.wellFormed, hwf⟩
    · rw [respelledItems, respelledItems, hsame, hsames]

/-! ### Flows -/

/-- The members of a written flow, with its written nodes and finite coordinates. -/
def Flow.members (f : Flow) (nodes : List Tree) (x y zoom : Binary64) : List (String × Tree) :=
  f.listed (.array nodes) (.array (f.connections.map (entryTree Connection.toTree)))
    (Viewport.tree x y zoom)

theorem Flow.toTree_eq {f : Flow} (hnodes : f.nodesListed = true)
    (hconnections : f.connectionsListed = true) {x y zoom : Binary64}
    (hviewport : f.viewport = ⟨.finite x, .finite y, .finite zoom⟩) {nodes : List Tree}
    (h : f.nodes.mapM nodeEntryTree = .ok nodes) :
    f.toTree = .ok (.record (f.members nodes x y zoom)) := by
  rw [Flow.toTree, h, hnodes, hconnections, hviewport]
  rfl

/-- What is written for a flow, in front of a text, is read as the flow. -/
theorem Flow.ofWritten_eq {spacing : Spacing} {f : Flow} {ms : List (String × Tree)}
    (h : Fills spacing 1 Flow.fill ms {} f) {w : Written} (hwf : (Tree.record ms).WellFormed)
    (htree : w.tree = (Tree.record ms).respelled .escaped)
    (htext : (Tree.record ms).spaced .escaped spacing 0 <+: w.text) :
    Flow.ofWritten w = .ok f := by
  rw [Flow.ofWritten, h.record_of_begins "model.Flow" hwf htree htext, run_pure]

/-- The written form of a flow: it is read as the stored flow, which is written as the same text. -/
theorem Flow.exists_written {f : Flow} (h : f.Storable) (hfinite : f.IsFinite) :
    ∃ t, f.toTree = .ok t ∧ t.WellFormed ∧
      (∀ w : Written, w.tree = t.respelled .escaped → t.spaced .escaped .lines 0 <+: w.text →
        Flow.ofWritten w = .ok f.stored) ∧
      ∃ t', f.stored.toTree = .ok t' ∧ t'.respelled .escaped = t.respelled .escaped := by
  have hnodes : ∀ o ∈ f.nodes,
      ∃ t, Keeps 2 nodeEntryTree (nodeEntry none) pure o (o.map Node.stored) t :=
    fun o ho => nodeEntry_exists_keeps (fun n hn => h.nodes n (hn ▸ ho))
      (fun n hn => hfinite.nodes n (hn ▸ ho))
  obtain ⟨ts, ts', hwrite, hwf, hreads, hagain, hsame⟩ := exists_keeps_items hnodes
  obtain ⟨x, y, zoom, hviewport, hx, hy, hzoom⟩ :=
    Viewport.exists_eq_finite h.x h.y h.zoom ⟨hfinite.x, hfinite.y, hfinite.zoom⟩
  have hmembers : (Tree.record (f.members ts x y zoom)).WellFormed := by
    refine wellFormed_record ?_
    simp only [Flow.members, Flow.listed, List.forall_mem_append, List.forall_mem_cons]
    exact ⟨⟨wellFormed_text _, wellFormed_text _, .array hwf,
      wellFormed_entries Connection.wellFormed_toTree _, Viewport.wellFormed_tree x y zoom, by simp⟩,
      wellFormed_textUnlessEmpty _ _⟩
  refine ⟨.record (f.members ts x y zoom),
    Flow.toTree_eq h.nodesListed h.connectionsListed hviewport hwrite, hmembers, ?_,
    .record (f.members ts' x y zoom),
    Flow.toTree_eq (f := f.stored) h.nodesListed h.connectionsListed hviewport hagain, ?_⟩
  · intro w htree htext
    refine Flow.ofWritten_eq ?_ hmembers htree htext
    refine Flow.fills (f := f.stored) h.nodesListed h.connectionsListed
      (readAs_list hreads "[]*model.Node" rfl) (connectionList_reads f.connections) ?_ (.refl _)
    show ReadAs .lines 1 (Viewport.read {}) _ (pure f.viewport)
    rw [hviewport]
    exact Viewport.reads hx hy hzoom {}
  · simp [respelled_record, Flow.members, Flow.listed, Tree.respelled, hsame]

/-! ## Stored flows come back -/

theorem encode_json_eq {f : Flow} {t : Tree} (h : f.toTree = .ok t) (hdepth : t.depth ≤ maxDepth) :
    f.encode .json = .ok (t.indented .escaped 0 ++ ['\n']) := by
  have hreadable : (!t.isReadable) = false := by simpa [Tree.isReadable] using hdepth
  simp only [Flow.encode, Flow.encodeWith, h, Except.mapError, bind, Except.bind, hreadable]
  rfl

/-- The text of a document that is well formed is read as what the document is read as. -/
theorem decode_json_eq {t : Tree} (hwf : t.WellFormed) (hdepth : t.depth ≤ maxDepth) {f : Flow}
    (h : ∀ w : Written, w.tree = t.respelled .escaped → t.spaced .escaped .lines 0 <+: w.text →
      Flow.ofWritten w = .ok f) :
    Flow.decode (t.indented .escaped 0 ++ ['\n']) .json = .ok f := by
  have hparse : Json.parse (t.indented .escaped 0 ++ ['\n']) = .ok (t.respelled .escaped) :=
    parse_indented hwf hdepth .escaped 0 (by simp [isGap])
  obtain ⟨w, hw, htext, htree⟩ := Written.exists_ofText hparse
  have hread : Flow.ofWritten w = .ok f := by
    refine h w htree ?_
    rw [htext, spaced_lines]
    exact List.prefix_append _ _
  have hjson : Flow.ofJson (t.indented .escaped 0 ++ ['\n']) = .ok f := by
    rw [Flow.ofJson, hw]
    exact hread
  rw [Flow.decode, Flow.decodeWith, hjson]
  rfl

/-- A finite flow that is written as JSON comes back. -/
theorem Flow.Storable.exists_json {f : Flow} (h : f.Storable) (hfinite : f.IsFinite) :
    ∃ text, f.encode .json = .ok text ∧ Flow.decode text .json = .ok f.stored := by
  obtain ⟨t, hwrite, hwf, hreads, -⟩ := Flow.exists_written h hfinite
  have hdepth := h.depth t hwrite
  exact ⟨_, encode_json_eq hwrite hdepth, decode_json_eq hwf hdepth hreads⟩

theorem Flow.Storable.exists_parse {f : Flow} (h : f.Storable) {rows : List Char}
    (hrows : rows ∈ f.rows) : ∃ t, Spells rows t := by
  obtain ⟨n, hn, hfound⟩ := List.mem_filterMap.mp hrows
  obtain ⟨preview, hpreview, hpreviewRows⟩ := Option.bind_eq_some_iff.mp hfound
  obtain ⟨d, hd, hdata⟩ := Option.bind_eq_some_iff.mp hpreview
  obtain ⟨o, ho, rfl⟩ := List.mem_filterMap.mp hn
  obtain ⟨p, hp, -, hstorable⟩ := (h.nodes n ho).payload
  cases p with
  | file data =>
    rw [Node.file?, hp] at hd
    obtain rfl := Option.some.inj hd
    exact (hstorable.2 preview hdata).rows rows hpreviewRows
  | _ =>
    rw [Node.file?, hp] at hd
    cases hd

/-- The first coordinate that is not finite decides the error. -/
theorem Flow.Storable.exists_encode_eq_error {f : Flow} (h : f.Storable) (hfinite : ¬ f.IsFinite)
    (format : Format) : ∃ x : Double, ¬ x.IsFinite ∧
      (f.encode format = .error (.unwritable (.position x)) ∨
        f.encode format = .error (.unwritable (.viewport x))) := by
  by_cases hnodes : ∀ n, some n ∈ f.nodes → n.IsFinite
  · -- all nodes are written, so it is the viewport
    obtain ⟨ts, -, hwrite, -⟩ := exists_keeps_items fun o ho =>
      nodeEntry_exists_keeps (fun n hn => h.nodes n (hn ▸ ho)) (fun n hn => hnodes n (hn ▸ ho))
    have hviewport : ¬ (f.viewport.x.IsFinite ∧ f.viewport.y.IsFinite ∧ f.viewport.zoom.IsFinite) :=
      fun ⟨hx, hy, hzoom⟩ => hfinite ⟨hnodes, hx, hy, hzoom⟩
    obtain ⟨x, hx, herror⟩ := Viewport.exists_toTree_eq_error hviewport
    refine ⟨x, hx, .inr ?_⟩
    simp only [Flow.encode, Flow.encodeWith, Flow.toTree, hwrite, herror]
    rfl
  · push Not at hnodes
    obtain ⟨x, hx, herror⟩ := nodes_exists_mapM_eq_error h.nodes hnodes
    refine ⟨x, hx, .inl ?_⟩
    simp only [Flow.encode, Flow.encodeWith, Flow.toTree, herror]
    rfl

/-- Rows with blanks and markup. -/
def pricesRows : List Char :=
  "[ \x7b\"day\" : \"<b>\"\x7d ]".toList

theorem parse_pricesRows : Json.parse pricesRows =
    .ok (.array [.object [("day".toList, .string "<b>".toList)]]) := rfl

def pricesPreview : FilePreview where
  headers := some ["day"]
  rowCount := 1
  rows := some pricesRows

/-- A tabular input with a null port. -/
def pricesNode : Node where
  id := "prices"
  kind := .csvInput
  position := ⟨.finite ⟨false, 6755399441055744, -52⟩, .finite ⟨true, 7205759403792794, -56⟩⟩
  outputs := [none, some ⟨"prices-out", "rows", "rows", "prices", .output⟩]
  payload := some (.file { fileSize := 42, preview := some pricesPreview })

/-- A function whose code has line breaks and quotes. -/
def tidyNode : Node where
  id := "tidy"
  kind := .function
  inputs := [some ⟨"tidy-in", "rows", "rows", "tidy", .input⟩]
  payload := some (.function { code := "def tidy(rows):\n\treturn \"\"", description := "<i>" })

/-- An output with nested data. -/
def reportNode : Node where
  id := "report"
  kind := .output
  payload := some (.output
    { value := .object [("a", .array [.null, .number .zero]), ("b", .string "&\u2028")] })

/-- A flow with null entries. -/
def pricesFlow : Flow where
  id := "flow-1"
  name := "Prices & <more>"
  nodes := [none, some pricesNode, some tidyNode, none, some reportNode]
  connections := [none, some ⟨"c", "prices", "prices-out", "tidy", "tidy-in"⟩]
  viewport := ⟨.zero, .zero, .finite ⟨false, 4503599627370496, -52⟩⟩

theorem pricesNode_storable : pricesNode.Storable where
  payload := by
    refine ⟨_, rfl, rfl, by decide, ?_⟩
    rintro p ⟨⟩
    refine ⟨by decide, ?_⟩
    rintro rows ⟨⟩
    exact ⟨_, parse_pricesRows⟩
  x := by decide +kernel
  y := by decide +kernel
  ports := by
    rintro p hp
    obtain rfl : p = ⟨"prices-out", "rows", "rows", "prices", .output⟩ := by
      simpa [pricesNode] using hp
    rfl

theorem tidyNode_storable : tidyNode.Storable where
  payload := ⟨_, rfl, rfl, trivial⟩
  x := by decide +kernel
  y := by decide +kernel
  ports := by
    rintro p hp
    obtain rfl : p = ⟨"tidy-in", "rows", "rows", "tidy", .input⟩ := by
      simpa [tidyNode] using hp
    rfl

theorem reportNode_storable : reportNode.Storable where
  payload := by
    have hzero : (Value.number .zero).Storable := .number (by decide +kernel)
    refine ⟨_, rfl, rfl, .object (by decide +kernel) ?_⟩
    simp only [List.forall_mem_cons]
    refine ⟨.array ?_, .string _, by simp⟩
    simp only [List.forall_mem_cons]
    exact ⟨.null, hzero, by simp⟩
  x := by decide +kernel
  y := by decide +kernel
  ports := by simp [reportNode]

theorem pricesFlow_nodes_storable {n : Node} (hn : some n ∈ pricesFlow.nodes) : n.Storable := by
  have hcases : n = pricesNode ∨ n = tidyNode ∨ n = reportNode := by
    simpa [pricesFlow] using hn
  rcases hcases with rfl | rfl | rfl
  · exact pricesNode_storable
  · exact tidyNode_storable
  · exact reportNode_storable

theorem pricesFlow_storable : pricesFlow.Storable where
  nodesListed := rfl
  connectionsListed := rfl
  nodes _ hn := pricesFlow_nodes_storable hn
  x := by decide +kernel
  y := by decide +kernel
  zoom := by decide +kernel
  depth := by
    intro t ht
    have hdepth : pricesFlow.toTree.toOption.all (fun t => t.depth ≤ maxDepth) = true := by
      decide +kernel
    rw [ht] at hdepth
    exact of_decide_eq_true hdepth

theorem pricesFlow_finite : pricesFlow.IsFinite where
  nodes := by
    intro n hn
    have hcases : n = pricesNode ∨ n = tidyNode ∨ n = reportNode := by
      simpa [pricesFlow] using hn
    rcases hcases with rfl | rfl | rfl <;> exact ⟨trivial, trivial⟩
  x := trivial
  y := trivial
  zoom := trivial

/-- The flow with a viewport whose zoom is no number. -/
def strayFlow : Flow :=
  { pricesFlow with viewport := ⟨.zero, .zero, .nan⟩ }

theorem strayFlow_storable : strayFlow.Storable where
  nodesListed := rfl
  connectionsListed := rfl
  nodes _ hn := pricesFlow_nodes_storable hn
  x := by decide +kernel
  y := by decide +kernel
  zoom := by decide +kernel
  depth := by
    intro t ht
    have hnone : strayFlow.toTree.toOption.isNone = true := by decide +kernel
    rw [ht] at hnone
    cases hnone

/-- Rows come back with a line for each item and each member, at the depth of a preview. -/
example : String.ofList (storedRows pricesRows) =
    "[\n            \x7b\n              \"day\": \"\\u003cb\\u003e\"\n            \x7d\n          ]" := by
  decide +kernel

end FlowScript
