import FlowScript.Proofs.Flow.Storage
import FlowScript.Proofs.Json.Content
import FlowScript.Proofs.Yaml.Reading

/-!
# Storing flows as YAML

A flow is written as YAML by way of data, and read by way of the JSON that is made from the data in
the file. So sizes and counts pass through double precision numbers, and the rows of previews come
back without blanks, with their numbers spelled anew and the members of their objects sorted. What
reads and prints YAML is a parameter; all that is asked of it is that the data of the flow comes back.

## Main definitions

- `Flow.throughYaml` — the flow that comes back
- `Flow.Fits` — numbers in rows can be held, and sizes and counts stay integers of 64 bits
- `Flow.ComesBackFromYaml` — the document of a flow is read back from its YAML

## Main results

- `Flow.decode_encode_yaml` — what comes back of a flow that is written as YAML
-/

namespace FlowScript

open Json Text Reading

/-! ## The flow that comes back -/

/-- The integer that an integer prints as when it has passed a double precision number. -/
def yamlCount? (n : Int) : Option Int :=
  match Binary64.read (signedDecimal n) with
  | .number x => wholeNumber? (NumberLayout.document.render x)
  | _ => none

/-- The rows of a preview after they were written as YAML and read. -/
def yamlRows (rows : List Char) : List Char :=
  match Json.parse rows with
  | .error _ => rows
  | .ok t =>
    match Value.ofTree t with
    | .error _ => rows
    | .ok v => v.toTree.compact .escaped

def FilePreview.throughYaml (p : FilePreview) : FilePreview :=
  { p with rowCount := (yamlCount? p.rowCount).getD 0, rows := p.rows.map yamlRows }

def FileData.throughYaml (d : FileData) : FileData :=
  { d with
    fileSize := (yamlCount? d.fileSize).getD 0
    preview := d.preview.map FilePreview.throughYaml }

def Payload.throughYaml : Payload → Payload
  | .file d => .file d.throughYaml
  | p => p

def Node.throughYaml (n : Node) : Node :=
  { n with payload := n.payload.map Payload.throughYaml }

/-- A flow with the sizes, counts and rows that come back from YAML. -/
def Flow.throughYaml (f : Flow) : Flow :=
  { f with nodes := f.nodes.map (Option.map Node.throughYaml) }

/-- The count stays an integer of 64 bits, and the numbers in the rows can be held. -/
structure FilePreview.Fits (p : FilePreview) : Prop where
  rowCount : (yamlCount? p.rowCount).isSome = true
  rows : ∀ rows ∈ p.rows, ∀ t, Spells rows t → ∃ t', Becomes t t'

/-- The size stays an integer of 64 bits, and the preview fits. -/
structure FileData.Fits (d : FileData) : Prop where
  fileSize : (yamlCount? d.fileSize).isSome = true
  preview : ∀ p ∈ d.preview, p.Fits

/-- The files of all nodes fit. -/
def Flow.Fits (f : Flow) : Prop :=
  ∀ n, some n ∈ f.nodes → ∀ d, n.payload = some (.file d) → d.Fits

/-! ## Documents that come back as values -/

/-- What becomes of a document is read as `b`. -/
def Returns {β : Type} (depth : Nat) (read : Written → β) (b : β) (t : Tree) : Prop :=
  ∃ t', Becomes t t' ∧ ReadAs .none depth read t' b

variable {depth : Nat}

theorem returns_record {β : Type} {read : Written → β} {b : β} {members members' : List (String × Tree)}
    (hkeys : (members.map Prod.fst).Nodup) (h : MembersBecome members members')
    (hreads : ∀ {sorted}, sorted.Perm members' → ReadAs .none depth read (.record sorted) b) :
    Returns depth read b (.record members) := by
  obtain ⟨sorted, hperm, hbecomes⟩ := becomes_record hkeys h
  exact ⟨_, hbecomes, hreads hperm⟩

theorem becomes_textsTree (items : Option (List String)) :
    Becomes (textsTree items) (textsTree items) := by
  cases items with
  | none => exact becomes_null
  | some items => exact becomes_texts items

theorem becomes_position {x y : Binary64} (hx : ReadsBack x) (hy : ReadsBack y) :
    Becomes (Position.tree x y) (Position.tree x y) := by
  have hvalue : (Value.object [("x", .number x), ("y", .number y)]).Storable := by
    refine .object (List.pairwise_map.mp (by decide : ["x", "y"].Pairwise (· < ·))) ?_
    simpa using And.intro (Value.Storable.number hx) (Value.Storable.number hy)
  exact hvalue.becomes

theorem becomes_viewport {x y zoom : Binary64} (hx : ReadsBack x) (hy : ReadsBack y)
    (hzoom : ReadsBack zoom) : Becomes (Viewport.tree x y zoom) (Viewport.tree x y zoom) := by
  have hvalue : (Value.object [("x", .number x), ("y", .number y),
      ("zoom", .number zoom)]).Storable := by
    refine .object (List.pairwise_map.mp (by decide : ["x", "y", "zoom"].Pairwise (· < ·))) ?_
    simpa using ⟨Value.Storable.number hx, Value.Storable.number hy, Value.Storable.number hzoom⟩
  exact hvalue.becomes

theorem membersBecome_textUnlessEmpty (key s : String) :
    MembersBecome (textUnlessEmpty key s) (textUnlessEmpty key s) := by
  refine membersBecome_self ?_
  intro m hm
  obtain ⟨-, rfl⟩ := mem_textUnlessEmpty.mp hm
  exact becomes_text s

theorem Port.returns {p : Port} (h : Direction.ofName p.direction.name = p.direction) :
    Returns depth (Port.read none) (pure (some p)) p.toTree := by
  refine returns_record p.nodup_keys (membersBecome_self ?_) ?_
  · simp [becomes_text]
  · intro sorted hperm
    exact (Port.fills h hperm).entry "model.Port"

theorem Connection.returns (c : Connection) :
    Returns depth (Connection.read none) (pure (some c)) c.toTree := by
  refine returns_record c.nodup_keys (membersBecome_self ?_) ?_
  · simp [becomes_text]
  · intro sorted hperm
    exact (c.fills hperm).entry "model.Connection"

/-- A null entry stays null. -/
theorem returns_entry {α : Type} {fill : α → String → Written → Reading α} {fresh : α}
    {wanted : String} {write : α → Tree} {o : Option α}
    (h : ∀ a ∈ o, Returns depth (entry fresh (record wanted fill) none) (pure (some a)) (write a)) :
    Returns depth (entry fresh (record wanted fill) none) (pure o) (entryTree write o) := by
  cases o with
  | none => exact ⟨.null, becomes_null, readAs_null fun w hw => by rw [entry, hw]⟩
  | some a => exact h a rfl

/-- The items of a list come back one by one. -/
theorem returns_list {α : Type} {fill : α → Written → Reading α} {fresh : α} {ts : List Tree}
    {as : List α}
    (h : List.Forall₂ (fun t a => Returns (depth + 1) (fill fresh) (pure a) t) ts as)
    (wanted : String) :
    Returns depth (list wanted fresh fill (some [])) (pure (some as)) (.array ts) := by
  obtain ⟨ts', hbecome, hreads⟩ : ∃ ts', List.Forall₂ Becomes ts ts' ∧
      List.Forall₂ (fun t a => ReadAs .none (depth + 1) (fill fresh) t (pure a)) ts' as := by
    induction h with
    | nil => exact ⟨[], .nil, .nil⟩
    | cons hhead _ ih =>
      obtain ⟨t', hbecomes, hread⟩ := hhead
      obtain ⟨ts', hrest, hreads⟩ := ih
      exact ⟨t' :: ts', .cons hbecomes hrest, .cons hread hreads⟩
  exact ⟨.array ts', becomes_array hbecome, readAs_list hreads wanted rfl⟩

theorem returns_ports {ports : List (Option Port)}
    (h : ∀ p, some p ∈ ports → Direction.ofName p.direction.name = p.direction) :
    Returns depth (portList []) (pure ports) (.array (ports.map (entryTree Port.toTree))) := by
  have hports : List.Forall₂ (fun t o => Returns (depth + 1) (Port.read none) (pure o) t)
      (ports.map (entryTree Port.toTree)) ports := by
    rw [List.forall₂_map_left_iff, List.forall₂_same]
    exact fun o ho => returns_entry fun p hp => Port.returns (h p (hp ▸ ho))
  obtain ⟨t', hbecomes, hread⟩ := returns_list hports "[]*model.Port"
  refine ⟨t', hbecomes, fun w hw => ?_⟩
  rw [portList, hread w hw]
  rfl

theorem returns_connections (connections : List (Option Connection)) :
    Returns depth (list "[]*model.Connection" none Connection.read (some []))
      (pure (some connections)) (.array (connections.map (entryTree Connection.toTree))) := by
  refine returns_list ?_ _
  rw [List.forall₂_map_left_iff, List.forall₂_same]
  exact fun o _ => returns_entry fun c _ => c.returns

/-! ### Counts and previews -/

theorem exists_becomes_count {n : Int} (h : (yamlCount? n).isSome = true) :
    ∃ count, Becomes (.int n) count ∧ ∀ wanted,
      intOf wanted 0 (count.respelled .escaped) = pure ((yamlCount? n).getD 0) := by
  unfold yamlCount? at h ⊢
  cases hread : Binary64.read (signedDecimal n) with
  | number x =>
    simp only [hread] at h ⊢
    obtain ⟨m, hm⟩ := Option.isSome_iff_exists.mp h
    refine ⟨.real x, becomes_int hread, fun wanted => ?_⟩
    rw [Tree.real, Tree.respelled, intOf, hm]
    rfl
  | _ => simp [hread] at h

/-- What becomes of rows whose numbers can be held. -/
theorem yamlRows_rel {spelling : Option (List Char)} {rows : Option Tree}
    (h : Option.Rel Spells spelling rows)
    (hfits : ∀ s ∈ spelling, ∀ t, Spells s t → ∃ t', Becomes t t') :
    ∃ rows', Option.Rel Becomes rows rows' ∧
      spelling.map yamlRows = rows'.map (Tree.spaced .escaped .none depth) := by
  cases h with
  | none => exact ⟨none, .none, rfl⟩
  | some hrows =>
    obtain ⟨t', v, hread, rfl⟩ := hfits _ rfl _ hrows
    rw [Spells] at hrows
    refine ⟨some v.toTree, .some ⟨v, hread, rfl⟩, ?_⟩
    simp [yamlRows, hrows, hread, spaced_none]

theorem FilePreview.membersBecome {p : FilePreview} {count : Tree} {rows rows' : Option Tree}
    (hcount : Becomes (.int p.rowCount) count) (hrows : Option.Rel Becomes rows rows') :
    MembersBecome (p.members rows) (p.listed count rows') := by
  have hheaders : MembersBecome [("headers", textsTree p.headers), ("firstRow", textsTree p.firstRow)]
      [("headers", textsTree p.headers), ("firstRow", textsTree p.firstRow)] :=
    membersBecome_self (by simp [becomes_textsTree])
  have hlast : MembersBecome (if p.lastRow.isEmpty then [] else [("lastRow", .texts p.lastRow)])
      (if p.lastRow.isEmpty then [] else [("lastRow", .texts p.lastRow)]) := by
    refine membersBecome_self ?_
    split <;> simp [becomes_texts]
  have hdocument : MembersBecome (rows.toList.map fun t => ("jsonData", t))
      (rows'.toList.map fun t => ("jsonData", t)) := by
    cases hrows with
    | none => exact .nil
    | some h => exact membersBecome_single h
  exact (((hheaders.append hlast).append (membersBecome_single hcount)).append
    (membersBecome_textUnlessEmpty _ _)).append hdocument

theorem FilePreview.exists_returns {p : FilePreview} (h : p.Storable) (hfits : p.Fits) :
    ∃ t, p.WritesAs t ∧ Returns depth FilePreview.read (pure (some p.throughYaml)) t := by
  obtain ⟨rows, hrows⟩ := exists_optionRel h.rows
  obtain ⟨count, hcount, hread⟩ := exists_becomes_count hfits.rowCount
  obtain ⟨rows', hrows', hspelling⟩ := yamlRows_rel hrows hfits.rows
  refine ⟨_, FilePreview.toTree_eq hrows, returns_record (p.nodup_keys (.int p.rowCount) rows)
    (p.membersBecome hcount hrows') ?_⟩
  intro sorted hperm
  exact (FilePreview.fills (p := p.throughYaml) (hread "int") hspelling hperm).entry
    "model.FilePreview"

/-! ### Payloads -/

theorem FileData.membersBecome {d : FileData} {size preview preview' : Option Tree}
    (hsize : Option.Rel Becomes d.size size) (hpreview : Option.Rel Becomes preview preview') :
    MembersBecome (d.members preview) (d.listed size preview') := by
  have hoption : ∀ {key : String} {o o' : Option Tree}, Option.Rel Becomes o o' →
      MembersBecome (o.toList.map fun t => (key, t)) (o'.toList.map fun t => (key, t)) := by
    intro key o o' h
    cases h with
    | none => exact .nil
    | some h => exact membersBecome_single h
  rw [d.members_eq]
  exact (((membersBecome_textUnlessEmpty _ _).append (hoption hsize)).append
    (hoption hpreview)).append (membersBecome_textUnlessEmpty _ _)

/-- What becomes of the size, which is left out when it is zero. -/
theorem FileData.exists_becomes_size {d : FileData} (h : (yamlCount? d.fileSize).isSome = true) :
    ∃ size, Option.Rel Becomes d.size size ∧
      (∀ t ∈ size, intOf "int64" 0 (t.respelled .escaped) = pure d.throughYaml.fileSize) ∧
      (size = none → d.throughYaml.fileSize = 0) := by
  unfold FileData.size
  by_cases hzero : d.fileSize = 0
  · have hkept : yamlCount? 0 = some 0 := by decide +kernel
    refine ⟨none, by simp [hzero], by simp, fun _ => ?_⟩
    rw [FileData.throughYaml, hzero, hkept]
    rfl
  · obtain ⟨count, hcount, hread⟩ := exists_becomes_count h
    refine ⟨some count, by simpa [hzero] using Option.Rel.some hcount, ?_, by simp⟩
    rintro t ⟨⟩
    exact hread "int64"

theorem FileData.exists_preview_rel {preview : Option FilePreview}
    (h : ∀ p ∈ preview, p.Storable) (hfits : ∀ p ∈ preview, p.Fits) :
    ∃ trees trees', Option.Rel FilePreview.WritesAs preview trees ∧
      Option.Rel Becomes trees trees' ∧
      Option.Rel (fun t p => ReadAs .none depth FilePreview.read t (pure (some p))) trees'
        (preview.map FilePreview.throughYaml) := by
  cases preview with
  | none => exact ⟨none, none, .none, .none, .none⟩
  | some p =>
    obtain ⟨t, hwrite, t', hbecomes, hread⟩ := FilePreview.exists_returns (h p rfl) (hfits p rfl)
    exact ⟨some t, some t', .some hwrite, .some hbecomes, .some hread⟩

theorem Payload.exists_returns_file {d : FileData} (hpreview : ∀ p ∈ d.preview, p.Storable)
    (hfits : d.Fits) {kind : NodeKind} (hshape : kind.shape? = some .file) (id : String) :
    ∃ t, (Payload.file d).toTree = .ok t ∧
      Returns depth (kind.readPayload id) (.ok (Payload.file d).throughYaml) t := by
  obtain ⟨size, hsize, hsizeRead, hnone⟩ := FileData.exists_becomes_size hfits.fileSize
  obtain ⟨trees, trees', hwrite, hbecomes, hkept⟩ :=
    FileData.exists_preview_rel hpreview hfits.preview
  have hkeys : ((d.members trees).map Prod.fst).Nodup := by
    rw [d.members_eq]
    exact d.nodup_keys d.size trees
  refine ⟨_, Payload.toTree_file hwrite, returns_record hkeys (d.membersBecome hsize hbecomes) ?_⟩
  intro sorted hperm
  have htabular : kind.isTabular = true := by
    cases kind <;> first | rfl | cases hshape
  exact FileData.reads (FileData.fills (d := d.throughYaml) hsizeRead hnone hkept hperm) htabular id

theorem Payload.exists_returns {p : Payload} (h : p.Storable)
    (hfits : ∀ d, p = .file d → d.Fits) {kind : NodeKind} (hshape : kind.shape? = some p.shape)
    (id : String) :
    ∃ t, p.toTree = .ok t ∧
      Returns depth (kind.readPayload id) (.ok p.throughYaml) t := by
  cases p with
  | function d =>
    have hmembers : MembersBecome d.members d.members :=
      ((membersBecome_single (becomes_text _)).append (membersBecome_textUnlessEmpty _ _)).append
        (membersBecome_textUnlessEmpty _ _)
    cases kind <;> cases hshape
    exact ⟨.record d.members, rfl, returns_record d.nodup_keys hmembers fun hperm => d.reads hperm id⟩
  | subFlow d =>
    have hmembers : MembersBecome d.members d.members :=
      (membersBecome_textUnlessEmpty _ _).append (membersBecome_textUnlessEmpty _ _)
    cases kind <;> cases hshape
    exact ⟨.record d.members, rfl, returns_record d.nodup_keys hmembers fun hperm => d.reads hperm id⟩
  | output d =>
    have hvalue : d.value.Storable := h
    have hmembers : MembersBecome d.members d.members :=
      ((membersBecome_single hvalue.becomes).append (membersBecome_textUnlessEmpty _ _)).append
        (membersBecome_textUnlessEmpty _ _)
    cases kind <;> cases hshape
    exact ⟨.record d.members, rfl,
      returns_record d.nodup_keys hmembers fun hperm => OutputData.reads h hperm id⟩
  | file d => exact Payload.exists_returns_file h.2 (hfits d rfl) hshape id
  | hollow shape => exact h.elim

/-! ### Nodes and flows -/

/-- What becomes of a node at finite coordinates is read as the node, as far as what it carries is. -/
theorem Node.exists_becomes {n : Node} (h : n.Storable) {x y : Binary64}
    (hposition : n.position = ⟨.finite x, .finite y⟩) (hx : ReadsBack x) (hy : ReadsBack y)
    {payload payload' : Tree} (hpayload : Becomes payload payload') :
    ∃ ms, Becomes (.record (n.members x y payload)) (.record ms) ∧
      ∀ w : Written, w.Shows .escaped .none depth (.record ms) →
        ∃ carried : Written, carried.Shows .escaped .none (depth + 1) payload' ∧
          Node.ofWritten w = (n.kind.readPayload n.id carried).map
            fun q => { n with payload := some q } := by
  obtain ⟨p, hp, hshape, -⟩ := h.payload
  obtain ⟨inputs', hinputs, hinputsRead⟩ : Returns (depth + 1) (portList []) (pure n.inputs) _ :=
    returns_ports fun p hp => h.ports p (List.mem_append_left _ hp)
  obtain ⟨outputs', houtputs, houtputsRead⟩ : Returns (depth + 1) (portList []) (pure n.outputs) _ :=
    returns_ports fun p hp => h.ports p (List.mem_append_right _ hp)
  have hmembers : MembersBecome (n.members x y payload)
      (n.listed (Position.tree x y) inputs' outputs' payload') :=
    .cons ⟨rfl, becomes_text _⟩ (.cons ⟨rfl, becomes_text _⟩ (.cons ⟨rfl, becomes_text _⟩
      (.cons ⟨rfl, becomes_position hx hy⟩ (.cons ⟨rfl, hinputs⟩ (.cons ⟨rfl, houtputs⟩
        (membersBecome_single hpayload))))))
  obtain ⟨sorted, hperm, hbecomes⟩ := becomes_record (n.nodup_keys _ _ _ payload) hmembers
  have hpositionRead : ReadAs .none (depth + 1) (Position.read {}) (Position.tree x y)
      (pure n.position) := by
    rw [hposition]
    exact Position.reads hx hy {}
  refine ⟨sorted, hbecomes, fun w hw => Node.exists_ofWritten_eq ?_ ?_ hw⟩
  · exact hperm.mem_iff.mpr (by simp [listed])
  · intro carried hcarried
    exact NodeDraft.fills (NodeKind.isSupported_of_shape? hshape) hpositionRead hinputsRead
      houtputsRead hcarried hperm

theorem Node.exists_returns {n : Node} (h : n.Storable) (hfinite : n.IsFinite)
    (hfits : ∀ d, n.payload = some (.file d) → d.Fits) :
    ∃ t, n.toTree = .ok t ∧ Returns depth Node.ofWritten (.ok n.throughYaml) t := by
  obtain ⟨p, hp, hshape, hstorable⟩ := h.payload
  obtain ⟨payload, hwrite, payload', hpayload, hread⟩ :=
    Payload.exists_returns hstorable (fun d hd => hfits d (hd ▸ hp)) hshape n.id
  obtain ⟨x, y, hposition, hx, hy⟩ := Position.exists_eq_finite h.x h.y hfinite
  obtain ⟨ms, hbecomes, heq⟩ := Node.exists_becomes h hposition hx hy hpayload
  refine ⟨_, Node.toTree_eq hposition hp hwrite, .record ms, hbecomes, fun w hw => ?_⟩
  obtain ⟨carried, hcarried, hnode⟩ := heq w hw
  rw [hnode, hread carried hcarried, Node.throughYaml, hp]
  rfl

/-- A null entry stays null. -/
theorem nodeEntry_exists_returns {o : Option Node} (h : ∀ n, o = some n → n.Storable)
    (hfinite : ∀ n, o = some n → n.IsFinite)
    (hfits : ∀ n, o = some n → ∀ d, n.payload = some (.file d) → d.Fits) :
    ∃ t, nodeEntryTree o = .ok t ∧
      Returns depth (nodeEntry none) (pure (o.map Node.throughYaml)) t := by
  cases o with
  | none =>
    exact ⟨.null, rfl, .null, becomes_null, readAs_null fun w hw => by rw [nodeEntry, hw]; rfl⟩
  | some n =>
    obtain ⟨t, hwrite, t', hbecomes, hread⟩ :=
      Node.exists_returns (h n rfl) (hfinite n rfl) (hfits n rfl)
    exact ⟨t, hwrite, t', hbecomes, fun w hw => nodeEntry_of_ofWritten (hread w hw)⟩

theorem exists_returns_nodes {nodes : List (Option Node)} (h : ∀ n, some n ∈ nodes → n.Storable)
    (hfinite : ∀ n, some n ∈ nodes → n.IsFinite)
    (hfits : ∀ n, some n ∈ nodes → ∀ d, n.payload = some (.file d) → d.Fits) :
    ∃ ts, nodes.mapM nodeEntryTree = .ok ts ∧
      List.Forall₂ (fun t o => Returns depth (nodeEntry none) (pure o) t) ts
        (nodes.map (Option.map Node.throughYaml)) := by
  induction nodes with
  | nil => exact ⟨[], rfl, .nil⟩
  | cons o rest ih =>
    obtain ⟨t, hwrite, hreturns⟩ := nodeEntry_exists_returns
      (fun n hn => h n (hn ▸ List.mem_cons_self)) (fun n hn => hfinite n (hn ▸ List.mem_cons_self))
      (fun n hn => hfits n (hn ▸ List.mem_cons_self))
    obtain ⟨ts, hwrites, hreturn⟩ := ih (fun n hn => h n (List.mem_cons_of_mem _ hn))
      (fun n hn => hfinite n (List.mem_cons_of_mem _ hn))
      (fun n hn => hfits n (List.mem_cons_of_mem _ hn))
    exact ⟨t :: ts, mapM_cons_ok hwrite hwrites, .cons hreturns hreturn⟩

theorem Flow.exists_returns {f : Flow} (h : f.Storable) (hfinite : f.IsFinite) (hfits : f.Fits) :
    ∃ t, f.toTree = .ok t ∧ Returns 0 Flow.ofWritten (.ok f.throughYaml) t := by
  obtain ⟨ts, hwrite, hnodes⟩ := exists_returns_nodes h.nodes hfinite.nodes hfits
  obtain ⟨nodes', hbecomes, hnodesRead⟩ := returns_list hnodes "[]*model.Node"
  obtain ⟨connections', hwires, hconnectionsRead⟩ := returns_connections f.connections
  obtain ⟨x, y, zoom, hviewport, hx, hy, hzoom⟩ :=
    Viewport.exists_eq_finite h.x h.y h.zoom ⟨hfinite.x, hfinite.y, hfinite.zoom⟩
  have hviewportRead : ReadAs .none 1 (Viewport.read {}) (Viewport.tree x y zoom)
      (pure f.viewport) := by
    rw [hviewport]
    exact Viewport.reads hx hy hzoom {}
  have hmembers : MembersBecome (f.members ts x y zoom)
      (f.listed nodes' connections' (Viewport.tree x y zoom)) := by
    refine MembersBecome.append ?_ (membersBecome_textUnlessEmpty _ _)
    exact .cons ⟨rfl, becomes_text _⟩ (.cons ⟨rfl, becomes_text _⟩ (.cons ⟨rfl, hbecomes⟩
      (.cons ⟨rfl, hwires⟩ (membersBecome_single (becomes_viewport hx hy hzoom)))))
  refine ⟨_, Flow.toTree_eq h.nodesListed h.connectionsListed hviewport hwrite,
    returns_record (f.nodup_keys (.array ts) _ _) hmembers ?_⟩
  intro sorted hperm w hw
  have hfills := Flow.fills (f := f.throughYaml) h.nodesListed h.connectionsListed hnodesRead
    hconnectionsRead hviewportRead hperm
  exact Flow.ofWritten_eq hfills hw.wellFormed hw.tree hw.begins

/-! ## What comes back of a flow -/

/-- The data that a flow is written as comes back from its YAML. -/
def Flow.ComesBackFromYaml (yaml : Yaml.Library) (f : Flow) : Prop :=
  ∀ t v, f.toTree = .ok t → Value.ofTree t = .ok v →
    ∃ d, yaml.read (yaml.render v) = .ok d ∧ v.comesBackAs d = true

variable {yaml : Yaml.Library}

theorem encode_yaml_eq {f : Flow} {t : Tree} {v : Value} (h : f.toTree = .ok t)
    (hdepth : t.depth ≤ maxDepth) (hread : Value.ofTree t = .ok v) :
    f.encodeWith yaml .yaml = .ok (yaml.render v) := by
  have hreadable : (!t.isReadable) = false := by simpa [Tree.isReadable] using hdepth
  simp only [Flow.encodeWith, h, hread, Except.mapError, bind, Except.bind, hreadable]
  rfl

theorem decode_yaml_eq {text : List Char} {d : Yaml.Data} {t : Tree} (h : yaml.read text = .ok d)
    (htree : d.toTree = .ok t) (hwf : t.WellFormed) (hdepth : t.depth ≤ maxDepth) :
    ∃ w : Written, w.Shows .escaped .none 0 t ∧
      Flow.decodeWith yaml text .yaml = (Flow.ofWritten w).mapError .document := by
  obtain ⟨w, hw, htext, hwTree⟩ := Written.exists_ofText (parse_compact hwf hdepth .escaped)
  refine ⟨w, ⟨hwf, htext.trans (spaced_none t .escaped 0).symm, hwTree⟩, ?_⟩
  have hjson : Flow.ofJson (t.compact .escaped) = Flow.ofWritten w := by
    rw [Flow.ofJson, hw]
    rfl
  simp only [Flow.decodeWith, h, htree, Except.mapError, bind, Except.bind, hjson]

theorem Flow.decode_encode_yaml {f : Flow} (h : f.Storable) (hfinite : f.IsFinite) (hfits : f.Fits)
    (hyaml : f.ComesBackFromYaml yaml) :
    ∃ text, f.encodeWith yaml .yaml = .ok text ∧
      Flow.decodeWith yaml text .yaml = .ok f.throughYaml := by
  obtain ⟨t, hwrite, t', ⟨v, hvalue, rfl⟩, hread⟩ := Flow.exists_returns h hfinite hfits
  obtain ⟨d, hdata, hback⟩ := hyaml t v hwrite hvalue
  have hdepth := h.depth t hwrite
  have hdepth' := Nat.le_trans (depth_le_of_ofTree hvalue) hdepth
  obtain ⟨w, hw, heq⟩ := decode_yaml_eq hdata (Yaml.toTree_of_comesBackAs (ofTree_sorted hvalue) hback)
    v.wellFormed_toTree hdepth'
  refine ⟨_, encode_yaml_eq hwrite hdepth hvalue, ?_⟩
  rw [heq, hread w hw]
  rfl

end FlowScript
