import FlowScript.Proofs.Flow.YamlStorage

/-!
# Flows that differ in the escapes of their rows

Storing a flow spells the rows of its previews anew. Two flows are alike when they are the same but for
the escapes in these rows. What comes back from YAML is alike to what comes back from JSON exactly
for flows whose rows, sizes and counts pass through data unchanged.

## Main definitions

- `SameContent` — two texts are documents that say the same
- `Flow.Alike` — flows are the same but for the escapes in rows
- `Flow.Settled` — rows are settled documents, and sizes and counts come back

## Main results

- `Flow.alike_iff_settled` — when the flows that come back from JSON and YAML are alike
-/

namespace FlowScript

open Json Text

/-! ## Flows that are alike -/

/-- A document with blanks between its tokens only, and none around it. -/
structure SpellsTightly (rows : List Char) (t : Tree) : Prop where
  spells : Spells rows t
  spaced : ∃ spacing depth, rows = t.spaced .plain spacing depth

/-- Two texts without blanks around them are documents that say the same: numbers digit for digit,
members in the same order. -/
def SameContent (rows rows' : List Char) : Prop :=
  ∃ t t', SpellsTightly rows t ∧ SpellsTightly rows' t' ∧ t.content = t'.content

/-- The same preview but for the escapes in the rows. -/
structure FilePreview.Alike (p q : FilePreview) : Prop where
  rest : { p with rows := none } = { q with rows := none }
  rows : Option.Rel SameContent p.rows q.rows

/-- The same file but for the escapes in the rows of the preview. -/
structure FileData.Alike (d e : FileData) : Prop where
  rest : { d with preview := none } = { e with preview := none }
  preview : Option.Rel FilePreview.Alike d.preview e.preview

/-- The same payload but for the escapes in rows. -/
inductive Payload.Alike : Payload → Payload → Prop
  | file {d e : FileData} (h : d.Alike e) : Alike (.file d) (.file e)
  | other {p : Payload} (h : ∀ d, p ≠ .file d) : Alike p p

/-- The same node but for the escapes in rows. -/
structure Node.Alike (n m : Node) : Prop where
  rest : { n with payload := none } = { m with payload := none }
  payload : Option.Rel Payload.Alike n.payload m.payload

/-- The same flow but for the escapes in rows. -/
structure Flow.Alike (f g : Flow) : Prop where
  rest : { f with nodes := [] } = { g with nodes := [] }
  nodes : List.Forall₂ (Option.Rel Node.Alike) f.nodes g.nodes

theorem Payload.alike_file_iff {d e : FileData} :
    (Payload.file d).Alike (.file e) ↔ d.Alike e := by
  constructor
  · intro h
    cases h with
    | file h => exact h
    | other hne => exact absurd rfl (hne d)
  · exact .file

/-! ## Flows that come back alike -/

/-- The count comes back, and the rows are settled. -/
structure FilePreview.Settled (p : FilePreview) : Prop where
  rowCount : yamlCount? p.rowCount = some p.rowCount
  rows : ∀ rows ∈ p.rows, ∀ t, Spells rows t → t.Settled

/-- The size comes back, and the preview is settled. -/
structure FileData.Settled (d : FileData) : Prop where
  fileSize : yamlCount? d.fileSize = some d.fileSize
  preview : ∀ p ∈ d.preview, p.Settled

/-- The files of all nodes are settled. -/
def Flow.Settled (f : Flow) : Prop :=
  ∀ n, some n ∈ f.nodes → ∀ d, n.payload = some (.file d) → d.Settled

theorem Json.Tree.Settled.exists_value {t : Tree} (h : t.Settled) : ∃ v, Value.ofTree t = .ok v := by
  induction h with
  | null => exact ⟨.null, rfl⟩
  | bool b => exact ⟨.bool b, rfl⟩
  | @number text x hread hprint => exact ⟨.number x, by rw [Value.ofTree, hread]⟩
  | string h => exact ⟨_, rfl⟩
  | @array items h ih =>
    obtain ⟨vs, hvs⟩ : ∃ vs, List.Forall₂ (fun t v => Value.ofTree t = .ok v) items vs := by
      clear h
      induction items with
      | nil => exact ⟨[], .nil⟩
      | cons item rest ihr =>
        obtain ⟨v, hv⟩ := ih item List.mem_cons_self
        obtain ⟨vs, hvs⟩ := ihr fun t ht => ih t (List.mem_cons_of_mem _ ht)
        exact ⟨v :: vs, .cons hv hvs⟩
    exact ⟨_, ofTree_array_eq_ok_iff.mpr ⟨vs, hvs, rfl⟩⟩
  | @object members hkeys hsorted h ih =>
    obtain ⟨vs, hvs⟩ : ∃ vs, List.Forall₂ MemberHolds members vs := by
      clear h hkeys hsorted
      induction members with
      | nil => exact ⟨[], .nil⟩
      | cons m rest ihr =>
        obtain ⟨v, hv⟩ := ih m List.mem_cons_self
        obtain ⟨vs, hvs⟩ := ihr fun m hm => ih m (List.mem_cons_of_mem _ hm)
        exact ⟨(keyText m, v) :: vs, .cons ⟨rfl, hv⟩ hvs⟩
    exact ⟨_, ofTree_object_eq_ok_iff.mpr ⟨vs, hvs, rfl⟩⟩

theorem FilePreview.Settled.fits {p : FilePreview} (h : p.Settled) : p.Fits where
  rowCount := by rw [h.rowCount, Option.isSome_some]
  rows := by
    intro rows hrows t ht
    obtain ⟨v, hv⟩ := (h.rows rows hrows t ht).exists_value
    exact ⟨v.toTree, v, hv, rfl⟩

theorem FileData.Settled.fits {d : FileData} (h : d.Settled) : d.Fits where
  fileSize := by rw [h.fileSize, Option.isSome_some]
  preview := fun p hp => (h.preview p hp).fits

theorem Flow.Settled.fits {f : Flow} (h : f.Settled) : f.Fits :=
  fun n hn d hd => (h n hn d hd).fits

theorem optionRel_map_iff {α β γ : Type} {R : β → γ → Prop} {g : α → β} {h : α → γ} {o : Option α} :
    Option.Rel R (o.map g) (o.map h) ↔ ∀ a ∈ o, R (g a) (h a) := by
  cases o with
  | none => simp
  | some a => simp

/-- Rows that come back from YAML say the same as before exactly when they are settled. -/
theorem sameContent_iff {rows : List Char} {t t' : Tree} (h : Spells rows t) (hfits : Becomes t t') :
    SameContent (storedRows rows) (yamlRows rows) ↔ t.Settled := by
  obtain ⟨v, hread, -⟩ := hfits
  obtain ⟨hwf, hdepth⟩ := fits_of_parse h
  have hstored : SpellsTightly (storedRows rows) (t.respelled .escaped) := by
    refine ⟨spells_storedRows h, .lines, rowsDepth, ?_⟩
    rw [Spells] at h
    simp only [storedRows, h]
    rw [← spaced_lines, spaced_eq]
  have hwf' := v.wellFormed_toTree
  have hdepth' : v.toTree.depth ≤ maxDepth := Nat.le_trans (depth_le_of_ofTree hread) (by omega)
  have hyaml : SpellsTightly (yamlRows rows) (v.toTree.respelled .escaped) := by
    rw [Spells] at h
    have hrows : yamlRows rows = v.toTree.compact .escaped := by
      simp only [yamlRows, h, hread]
    rw [hrows]
    refine ⟨parse_compact hwf' hdepth' .escaped, .none, 0, ?_⟩
    rw [← spaced_none v.toTree .escaped 0, spaced_eq]
  rw [← content_toTree_eq_iff hread, ← content_respelled hwf .escaped,
    ← content_respelled hwf' .escaped]
  constructor
  · rintro ⟨u, u', hu, hu', hsame⟩
    obtain rfl := Except.ok.inj (hstored.spells.symm.trans hu.spells)
    obtain rfl := Except.ok.inj (hyaml.spells.symm.trans hu'.spells)
    exact hsame.symm
  · intro hsame
    exact ⟨_, _, hstored, hyaml, hsame.symm⟩

theorem getD_count_eq_iff {n : Int} (h : (yamlCount? n).isSome = true) :
    n = (yamlCount? n).getD 0 ↔ yamlCount? n = some n := by
  obtain ⟨m, hm⟩ := Option.isSome_iff_exists.mp h
  rw [hm, Option.getD_some, Option.some.injEq, eq_comm]

theorem FilePreview.alike_iff_settled {p : FilePreview} (h : p.Storable) (hfits : p.Fits) :
    p.stored.Alike p.throughYaml ↔ p.Settled := by
  have hcount := getD_count_eq_iff hfits.rowCount
  have hrows : Option.Rel SameContent p.stored.rows p.throughYaml.rows ↔
      ∀ rows ∈ p.rows, ∀ t, Spells rows t → t.Settled := by
    refine optionRel_map_iff.trans ?_
    constructor
    · intro hsame rows hmem t ht
      obtain ⟨t', hbecomes⟩ := hfits.rows rows hmem t ht
      exact (sameContent_iff ht hbecomes).mp (hsame rows hmem)
    · intro hsettled rows hmem
      obtain ⟨t, ht⟩ := h.rows rows hmem
      obtain ⟨t', hbecomes⟩ := hfits.rows rows hmem t ht
      exact (sameContent_iff ht hbecomes).mpr (hsettled rows hmem t ht)
  constructor
  · rintro ⟨hrest, hsame⟩
    exact ⟨hcount.mp (congrArg FilePreview.rowCount hrest), hrows.mp hsame⟩
  · rintro ⟨hkept, hsettled⟩
    refine ⟨?_, hrows.mpr hsettled⟩
    rw [FilePreview.throughYaml, ← hcount.mpr hkept]
    rfl

theorem FileData.alike_iff_settled {d : FileData} (h : ∀ p ∈ d.preview, p.Storable)
    (hfits : d.Fits) :
    FileData.Alike { d with preview := d.preview.map FilePreview.stored } d.throughYaml ↔
      d.Settled := by
  have hsize := getD_count_eq_iff hfits.fileSize
  have hpreview : Option.Rel FilePreview.Alike (d.preview.map FilePreview.stored)
      d.throughYaml.preview ↔ ∀ p ∈ d.preview, p.Settled := by
    refine optionRel_map_iff.trans (forall₂_congr ?_)
    exact fun p hp => FilePreview.alike_iff_settled (h p hp) (hfits.preview p hp)
  constructor
  · rintro ⟨hrest, hsame⟩
    exact ⟨hsize.mp (congrArg FileData.fileSize hrest), hpreview.mp hsame⟩
  · rintro ⟨hkept, hsettled⟩
    refine ⟨?_, hpreview.mpr hsettled⟩
    rw [FileData.throughYaml, ← hsize.mpr hkept]

theorem Payload.alike_self_iff {p : Payload} (h : p.shape ≠ .file) :
    p.Alike p ↔ ∀ d, p = .file d → d.Settled := by
  have hne : ∀ d, p ≠ .file d := by
    rintro d rfl
    exact h rfl
  exact iff_of_true (.other hne) fun d hd => absurd hd (hne d)

theorem Payload.alike_iff_settled {p : Payload} (h : p.Storable)
    (hfits : ∀ d, p = .file d → d.Fits) :
    p.stored.Alike p.throughYaml ↔ ∀ d, p = .file d → d.Settled := by
  cases p with
  | file d =>
    have hiff := Payload.alike_file_iff.trans (FileData.alike_iff_settled h.2 (hfits d rfl))
    constructor
    · rintro hsame _ ⟨⟩
      exact hiff.mp hsame
    · exact fun hsettled => hiff.mpr (hsettled d rfl)
  | function d => exact Payload.alike_self_iff (p := .function d) nofun
  | subFlow d => exact Payload.alike_self_iff (p := .subFlow d) nofun
  | output d => exact Payload.alike_self_iff (p := .output d) nofun
  | hollow shape => exact h.elim

theorem Node.alike_iff_settled {n : Node} (h : n.Storable)
    (hfits : ∀ d, n.payload = some (.file d) → d.Fits) :
    n.stored.Alike n.throughYaml ↔ ∀ d, n.payload = some (.file d) → d.Settled := by
  obtain ⟨p, hp, -, hstorable⟩ := h.payload
  have hiff := Payload.alike_iff_settled hstorable fun d hd => hfits d (hd ▸ hp)
  have hpayload : Option.Rel Payload.Alike n.stored.payload n.throughYaml.payload ↔
      ∀ d, n.payload = some (.file d) → d.Settled := by
    refine optionRel_map_iff.trans ?_
    simp [hp, hiff]
  exact ⟨fun hsame => hpayload.mp hsame.payload, fun hsettled => ⟨rfl, hpayload.mpr hsettled⟩⟩

/-- The flows that come back from JSON and from YAML are alike exactly when the flow is settled. -/
theorem Flow.alike_iff_settled {f : Flow} (h : f.Storable) (hfits : f.Fits) :
    f.stored.Alike f.throughYaml ↔ f.Settled := by
  have hnodes : List.Forall₂ (Option.Rel Node.Alike) f.stored.nodes f.throughYaml.nodes ↔
      f.Settled := by
    show List.Forall₂ (Option.Rel Node.Alike) (f.nodes.map (Option.map Node.stored))
      (f.nodes.map (Option.map Node.throughYaml)) ↔ _
    rw [List.forall₂_map_left_iff, List.forall₂_map_right_iff, List.forall₂_same]
    simp only [optionRel_map_iff]
    constructor
    · intro hsame n hn
      exact (Node.alike_iff_settled (h.nodes n hn) (hfits n hn)).mp (hsame _ hn n rfl)
    · rintro hsettled _ ho n rfl
      exact (Node.alike_iff_settled (h.nodes n ho) (hfits n ho)).mpr (hsettled n ho)
  exact ⟨fun hsame => hnodes.mp hsame.nodes, fun hsettled => ⟨rfl, hnodes.mpr hsettled⟩⟩

end FlowScript
