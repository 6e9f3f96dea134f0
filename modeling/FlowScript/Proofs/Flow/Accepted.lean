import FlowScript.Proofs.Flow.Decoded
import FlowScript.Proofs.Script.Findings

/-!
# Flows that are accepted

A flow that was read from a text, in either format and with any library for YAML, compiles without
complaints about its structure: its nodes are of supported kinds and carry what these call for, and
the rows of every preview are a document. The rows are kept as they stand in the JSON that is read,
and what stands there for a value holds this value on its own.

## Main definitions

- `Flow.RowsFrom` — the rows of every preview are what is written for a value with a property
- `Flow.Parses` — the rows of every preview are a document
- `Node.Equipped` — the node carries what its kind calls for

## Main results

- `Flow.rowsFrom_of_ofWritten` — rows have every property that a document hands down to its parts
- `Flow.compiles_of_decode` — what is accepted compiles without structural complaints
-/

namespace FlowScript

open Json Text Reading

/-! ## Parts of a text -/

/-- What stands in a text stays there when it is taken apart. -/
theorem hereditary_stands (text : List Char) : Hereditary (fun w => w.text <:+: text) where
  item h _ hv := (Written.infix_of_mem_items hv).trans h
  member h _ hm := (Written.infix_of_mem_members hm).trans h

theorem eq_ok_of_mapError {ε ε' α : Type} {x : Except ε α} {refer : ε → ε'} {a : α}
    (h : x.mapError refer = .ok a) : x = .ok a := by
  cases x with
  | error e => cases h
  | ok b => exact congrArg Except.ok (Except.ok.inj h)

theorem exists_of_ofJson {cs : List Char} {f : Flow} (h : Flow.ofJson cs = .ok f) :
    ∃ w : Written, w.text = cs ∧ Flow.ofWritten w = .ok f := by
  rw [Flow.ofJson] at h
  cases hw : Written.ofText cs with
  | error fault =>
    rw [hw] at h
    cases h
  | ok w =>
    rw [hw] at h
    exact ⟨w, Written.text_of_ofText hw, h⟩

/-- A flow is read from JSON, whatever the format of the text: from the text itself, or from the JSON
form of its YAML. -/
theorem exists_ofWritten_of_decodeWith {yaml : Yaml.Library} {text : List Char} {format : Format}
    {f : Flow} (h : Flow.decodeWith yaml text format = .ok f) :
    ∃ w : Written, Flow.ofWritten w = .ok f ∧ (format = .json → w.text = text) := by
  cases format with
  | json =>
    obtain ⟨w, htext, hread⟩ := exists_of_ofJson (eq_ok_of_mapError h)
    exact ⟨w, hread, fun _ => htext⟩
  | yaml =>
    rw [Flow.decodeWith] at h
    cases hdata : yaml.read text with
    | error fault =>
      rw [hdata] at h
      cases h
    | ok data =>
      rw [hdata] at h
      cases htree : data.toTree with
      | error fault =>
        change (data.toTree.mapError DecodeError.noJson >>= _) = _ at h
        rw [htree] at h
        cases h
      | ok t =>
        change (data.toTree.mapError DecodeError.noJson >>= _) = _ at h
        rw [htree] at h
        obtain ⟨w, -, hread⟩ := exists_of_ofJson (eq_ok_of_mapError h)
        exact ⟨w, hread, fun hjson => by cases hjson⟩

/-! ## Where rows come from -/

/-- The rows of a preview, if there are any, are what is written for a value with a property. -/
def FilePreview.RowsFrom (S : Written → Prop) (p : FilePreview) : Prop :=
  ∀ rows ∈ p.rows, ∃ w, S w ∧ w.text = rows

/-- The rows of the preview come from such a value. -/
def FileData.RowsFrom (S : Written → Prop) (d : FileData) : Prop :=
  ∀ p ∈ d.preview, p.RowsFrom S

/-- The rows of the file come from such a value. -/
def Node.RowsFrom (S : Written → Prop) (n : Node) : Prop :=
  ∀ d ∈ n.file?, d.RowsFrom S

/-- The rows of every preview come from such a value. -/
def Flow.RowsFrom (S : Written → Prop) (f : Flow) : Prop :=
  ∀ n, some n ∈ f.nodes → n.RowsFrom S

section Rows

variable {S : Written → Prop}

theorem FilePreview.gives_rowsFrom (p : FilePreview) (key : String) (w : Written) (hw : S w)
    (h : p.RowsFrom S) : Gives (FilePreview.RowsFrom S) (p.fill key w) := by
  unfold FilePreview.fill
  split
  · exact gives_set _ _ fun _ => h
  split
  · exact gives_set _ _ fun _ => h
  split
  · exact gives_set _ _ fun _ => h
  split
  · exact gives_set _ _ fun _ => h
  split
  · exact gives_set _ _ fun _ => h
  split
  · refine gives_pure ?_
    intro rows hrows
    exact ⟨w, hw, Option.some.inj hrows⟩
  · exact gives_pure h

variable (hS : Hereditary S)
include hS

theorem FileData.gives_rowsFrom (d : FileData) (key : String) (w : Written) (hw : S w)
    (h : d.RowsFrom S) : Gives (FileData.RowsFrom S) (d.fill key w) := by
  have hfresh : FilePreview.RowsFrom S {} := nofun
  unfold FileData.fill
  split
  · exact gives_set _ _ fun _ => h
  split
  · exact gives_set _ _ fun _ => h
  split
  · refine gives_inside _ _ (gives_bind (gives_entry_of hfresh ?_ h hw) fun o ho => gives_pure ho)
    intro p w hw hp
    exact gives_record_of hS FilePreview.gives_rowsFrom hp _ hw
  split
  · exact gives_set _ _ fun _ => h
  · exact gives_pure h

/-- Where nothing is written, there are no rows. -/
theorem FileData.rowsFrom_of_run {w : Written} (hw : S w ∨ w.tree = .null) {d : FileData}
    (h : run (record "model.FileInputData" FileData.fill {} w) = .ok d) : d.RowsFrom S := by
  have hfresh : FileData.RowsFrom S {} := nofun
  rcases hw with hw | hnull
  · exact of_run_eq_ok (gives_record_of hS (FileData.gives_rowsFrom hS) hfresh _ hw) h
  · rw [record, hnull] at h
    obtain rfl := Except.ok.inj h
    exact hfresh

theorem NodeKind.rowsFrom_of_readPayload {kind : NodeKind} {id : String} {w : Written}
    {d : FileData} (hw : S w ∨ w.tree = .null) (h : kind.readPayload id w = .ok (.file d)) :
    d.RowsFrom S := by
  cases kind with
  | csvInput =>
    obtain ⟨e, hrun, ⟨⟩⟩ := exists_of_wrapped h
    exact FileData.rowsFrom_of_run hS hw hrun
  | excelInput =>
    obtain ⟨e, hrun, ⟨⟩⟩ := exists_of_wrapped h
    exact FileData.rowsFrom_of_run hS hw hrun
  | other name => cases h
  | _ =>
    obtain ⟨e, -, heq⟩ := exists_of_wrapped h
    cases heq

omit hS in
/-- What a node carries waits in the draft as it is written in the document. -/
theorem NodeDraft.gives_payload (d : NodeDraft) (key : String) (w : Written) (hw : S w)
    (h : S d.payload ∨ d.payload.tree = .null) :
    Gives (fun d => S d.payload ∨ d.payload.tree = .null) (d.fill key w) := by
  unfold NodeDraft.fill
  split
  · exact gives_set _ _ fun _ => h
  split
  · exact gives_set _ _ fun _ => h
  split
  · exact gives_set _ _ fun _ => h
  split
  · exact gives_set _ _ fun _ => h
  split
  · exact gives_set _ _ fun _ => h
  split
  · exact gives_set _ _ fun _ => h
  split
  · exact gives_pure (.inl hw)
  · exact gives_pure h

theorem Node.rowsFrom_of_ofWritten {w : Written} {n : Node} (hw : S w)
    (h : Node.ofWritten w = .ok n) : n.RowsFrom S := by
  obtain ⟨draft, p, hrun, hread, rfl⟩ := Node.exists_of_ofWritten h
  have hgives : Gives (fun d => S d.payload ∨ d.payload.tree = .null)
      (record "model.nodeJSON" NodeDraft.fill {} w) :=
    gives_record_of hS NodeDraft.gives_payload (.inr rfl) _ hw
  have hpayload := of_run_eq_ok hgives hrun
  intro d hd
  cases p with
  | file e =>
    obtain rfl : e = d := Option.some.inj hd
    exact NodeKind.rowsFrom_of_readPayload hS hpayload hread
  | _ => cases hd

theorem gives_nodeEntry_rowsFrom (o : Option Node) (w : Written) (hw : S w) :
    Gives (fun o => ∀ n ∈ o, Node.RowsFrom S n) (nodeEntry o w) := by
  unfold nodeEntry
  split
  · exact gives_pure (by simp)
  · split
    · next n hn => exact gives_pure (by simpa using Node.rowsFrom_of_ofWritten hS hw hn)
    · exact gives_bind_of_forall fun _ => gives_pure (by simp)

theorem Flow.gives_rowsFrom (f : Flow) (key : String) (w : Written) (hw : S w)
    (h : f.RowsFrom S) : Gives (Flow.RowsFrom S) (f.fill key w) := by
  unfold Flow.fill
  split
  · exact gives_set _ _ fun _ => h
  split
  · exact gives_set _ _ fun _ => h
  split
  · have hold : ∀ o ∈ f.nodes, ∀ n ∈ o, n.RowsFrom S := fun o ho n hn => h n (hn ▸ ho)
    have hnone : ∀ n ∈ (none : Option Node), n.RowsFrom S := by simp
    refine gives_inside _ _ (gives_bind (gives_list_of hS hnone
      (fun o w hw _ => gives_nodeEntry_rowsFrom hS o w hw) _ (by simpa using hold) hw)
      fun found hfound => gives_pure ?_)
    intro n hn
    cases found with
    | none => simp at hn
    | some nodes => exact hfound nodes rfl _ hn n rfl
  split
  · exact gives_set _ _ fun _ => h
  split
  · exact gives_set _ _ fun _ => h
  split
  · exact gives_set _ _ fun _ => h
  · exact gives_pure h

/-- The rows of the previews in a flow are kept as they are written in the document. -/
theorem Flow.rowsFrom_of_ofWritten {w : Written} {f : Flow} (hw : S w)
    (h : Flow.ofWritten w = .ok f) : f.RowsFrom S := by
  have hfresh : Flow.RowsFrom S {} := fun n hn => by cases hn
  exact of_run_eq_ok (gives_record_of hS (Flow.gives_rowsFrom hS) hfresh _ hw) h

end Rows

/-- The rows of a preview, if there are any, are a document. -/
def FilePreview.Parses (p : FilePreview) : Prop :=
  ∀ rows ∈ p.rows, ∃ t, Json.parse rows = .ok t

/-- The rows of the file are a document. -/
def Node.Parses (n : Node) : Prop :=
  ∀ d ∈ n.file?, ∀ p ∈ d.preview, p.Parses

/-- The rows of every preview are a document. -/
def Flow.Parses (f : Flow) : Prop :=
  ∀ n, some n ∈ f.nodes → n.Parses

/-- What is written for a value holds this value on its own. -/
theorem Flow.RowsFrom.parses {S : Written → Prop} {f : Flow} (h : f.RowsFrom S) : f.Parses := by
  intro n hn d hd p hp rows hrows
  obtain ⟨w, -, rfl⟩ := h n hn d hd p hp rows hrows
  exact ⟨w.tree, w.holds⟩

theorem Flow.mem_liveNodes_iff {f : Flow} {n : Node} : n ∈ f.liveNodes ↔ some n ∈ f.nodes := by
  simp [Flow.liveNodes]

theorem Flow.RowsFrom.exists_of_mem_rows {S : Written → Prop} {f : Flow} (h : f.RowsFrom S)
    {rows : List Char} (hrows : rows ∈ f.rows) : ∃ w, S w ∧ w.text = rows := by
  obtain ⟨n, hn, hfound⟩ := List.mem_filterMap.mp hrows
  obtain ⟨p, hpreview, hrows⟩ := Option.bind_eq_some_iff.mp hfound
  obtain ⟨d, hd, hp⟩ := Option.bind_eq_some_iff.mp hpreview
  exact h n (Flow.mem_liveNodes_iff.mp hn) d hd p hp rows hrows

/-! ## Compiling what was accepted -/

/-- A node of a supported kind that carries data of the variant its kind calls for. -/
structure Node.Equipped (n : Node) : Prop where
  isSupported : n.kind.isSupported = true
  payload : ∃ p, n.payload = some p ∧ n.kind.shape? = some p.shape ∧ ∀ s, p ≠ .hollow s

theorem Node.Decoded.equipped {n : Node} (h : n.Decoded) : n.Equipped := by
  obtain ⟨p, hp, hshape, hhollow, -⟩ := h.payload
  exact ⟨NodeKind.isSupported_of_shape? hshape, p, hp, hshape, hhollow⟩

theorem Node.Equipped.fits {n : Node} (h : n.Equipped) : n.Fits := by
  obtain ⟨hsupported, p, hp, hshape, hhollow⟩ := h
  refine ⟨hsupported, ?_⟩
  unfold Node.carriesFitting
  cases hkind : n.kind <;> rw [hkind] at hshape <;> cases p with
  | hollow s => exact absurd rfl (hhollow s)
  | _ => cases hshape <;> simp [hp, Node.function?, Node.file?, Node.subFlow?, Node.output?]

/-- The rows that are compiled are those of the preview. -/
theorem Script.mem_rows_of_mem_rowsOf? {d : FileData} {rows : List Char} (h : rows ∈ rowsOf? d) :
    ∃ p ∈ d.preview, rows ∈ p.rows := by
  unfold rowsOf? at h
  cases hpreview : d.preview with
  | none => simp [hpreview] at h
  | some p =>
    cases hrows : p.rows with
    | none => simp [hpreview, hrows] at h
    | some found =>
      refine ⟨p, rfl, ?_⟩
      simp only [hpreview, hrows] at h
      split at h
      · cases h
      · exact hrows.trans h

theorem Node.Equipped.sound {n : Node} (h : n.Equipped) (hparses : n.Parses) : n.Sound where
  fits := h.fits
  rows := by
    intro d hd rows hrows
    obtain ⟨p, hp, hmem⟩ := Script.mem_rows_of_mem_rowsOf? hrows
    exact hparses d hd p hp rows hmem

/-- Every flow that is read, from a text in either format and whatever library reads YAML, compiles
without structural complaints. Its nodes carry what their supported kinds call for, no issue is about
that, and neither is a finding of the compiler, which can read the rows of every preview. The rows
that are read from JSON are a part of the text. -/
theorem Flow.compiles_of_decode {yaml : Yaml.Library} {text : List Char} {format : Format} {f : Flow}
    (h : Flow.decodeWith yaml text format = .ok f) :
    (∀ n, some n ∈ f.nodes → n.Equipped) ∧
      (∀ i ∈ f.issues, i.kind ≠ .unknownKind ∧ i.kind ≠ .dataKindMismatch) ∧
      (∀ clock, ∀ d ∈ (f.compile clock).1.diagnostics,
        d.code ≠ .invalidNode ∧ d.code ≠ .invalidPreview) ∧
      f.Parses ∧ (format = .json → ∀ rows ∈ f.rows, rows <:+: text) := by
  obtain ⟨w, hread, htext⟩ := exists_ofWritten_of_decodeWith h
  have hrows : f.RowsFrom (fun v => v.text <:+: w.text) :=
    Flow.rowsFrom_of_ofWritten (hereditary_stands w.text) List.infix_rfl hread
  have hequipped : ∀ n, some n ∈ f.nodes → n.Equipped :=
    fun n hn => ((Flow.decoded_of_ofWritten hread).nodes n hn).equipped
  have hsound : ∀ n ∈ f.liveNodes, n.Sound := by
    intro n hn
    have hn := Flow.mem_liveNodes_iff.mp hn
    exact (hequipped n hn).sound (hrows.parses n hn)
  refine ⟨hequipped, ?_, ?_, hrows.parses, ?_⟩
  · intro i hi
    rw [← not_or]
    intro hkind
    obtain ⟨n, hn, hfits⟩ := not_fits_of_mem_issues hi hkind
    exact hfits (hsound n hn).fits
  · intro clock d hd
    rw [← not_or]
    exact not_isOfNode_of_mem_compile hsound hd
  · rintro hjson rows hmem
    obtain ⟨v, hv, rfl⟩ := hrows.exists_of_mem_rows hmem
    rw [← htext hjson]
    exact hv

/-- A text with a tabular input whose preview has rows. -/
def previewText : List Char :=
  ("\x7b\"nodes\":[null,\x7b\"id\":\"a\",\"type\":\"csv-input\",\"data\":"
    ++ "\x7b\"filePreview\":\x7b\"jsonData\":[ \x7b\"n\": 1 \x7d ]\x7d\x7d\x7d]\x7d").toList

/-- The text is read, and the rows of its preview are compiled as they stand in it. -/
theorem previewText_compiles : ∃ f, Flow.decodeWith Yaml.library previewText .json = .ok f ∧
    f.rows = ["[ \x7b\"n\": 1 \x7d ]".toList] ∧ (∀ n, some n ∈ f.nodes → n.Equipped) ∧
    (∀ i ∈ f.issues, i.kind ≠ .unknownKind ∧ i.kind ≠ .dataKindMismatch) ∧
    (∀ clock, ∀ d ∈ (f.compile clock).1.diagnostics,
      d.code ≠ .invalidNode ∧ d.code ≠ .invalidPreview) ∧
    f.Parses ∧ (Format.json = .json → ∀ rows ∈ f.rows, rows <:+: previewText) := by
  have hrows : (Flow.decodeWith Yaml.library previewText .json).toOption.map Flow.rows =
      some ["[ \x7b\"n\": 1 \x7d ]".toList] := by decide +kernel
  cases hread : Flow.decodeWith Yaml.library previewText .json with
  | error fault =>
    rw [hread] at hrows
    cases hrows
  | ok f =>
    rw [hread] at hrows
    exact ⟨f, rfl, Option.some.inj hrows, Flow.compiles_of_decode hread⟩

end FlowScript
