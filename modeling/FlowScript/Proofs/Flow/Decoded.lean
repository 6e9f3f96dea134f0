import FlowScript.Proofs.Flow.Storage

/-!
# Flows that were read

What every flow that was read is like, whatever document it was read from: its lists are there, each
node carries what its kind calls for, sizes and counts are integers of 64 bits, and directions are in
their normal form.

## Main definitions

- `Gives` — the value of a reading has a property, whether or not there was a complaint
- `Flow.Decoded` — what flows that were read are like

## Main results

- `Flow.decoded_of_ofWritten` — every flow that was read is like that
-/

namespace FlowScript

open Json Text

namespace Reading

variable {α β : Type} {P : α → Prop} {Q : β → Prop}

/-- The value of a reading has a property, whether or not there was a complaint. -/
def Gives (P : α → Prop) (r : Reading α) : Prop :=
  ∀ place e, P (r place e).1

theorem gives_pure {a : α} (h : P a) : Gives P (pure a) :=
  fun _ _ => h

theorem gives_bind {r : Reading α} {k : α → Reading β} (hr : Gives P r)
    (hk : ∀ a, P a → Gives Q (k a)) : Gives Q (r >>= k) :=
  fun place e => hk _ (hr place e) place _

/-- What comes after a reading has the property whatever was read. -/
theorem gives_bind_of_forall {r : Reading α} {k : α → Reading β} (hk : ∀ a, Gives Q (k a)) :
    Gives Q (r >>= k) :=
  fun place _ => hk _ place _

theorem gives_inside {r : Reading α} (record member : String) (h : Gives P r) :
    Gives P (inside record member r) :=
  fun _ e => h _ e

/-- A member is set to what is read for it. -/
theorem gives_set {r : Reading β} {set : β → α} (record member : String) (h : ∀ b, P (set b)) :
    Gives P (inside record member do return set (← r)) :=
  gives_inside record member (gives_bind_of_forall fun b => gives_pure (h b))

theorem gives_refuse {old : α} (found wanted : String) (h : P old) :
    Gives P (refuse found wanted old) :=
  fun _ _ => h

theorem gives_intOf {old : Int} (h : IsInt64 old) (wanted : String) (t : Tree) :
    Gives IsInt64 (intOf wanted old t) := by
  cases t with
  | null => exact gives_pure h
  | number spelling =>
    rw [intOf]
    split
    · next n hn => exact gives_pure (isInt64_of_wholeNumber? hn)
    · exact gives_refuse _ _ h
  | _ => exact gives_refuse _ _ h

/-- A property of written documents that their parts have too. -/
structure Hereditary (S : Written → Prop) : Prop where
  item : ∀ {w}, S w → ∀ v ∈ w.items, S v
  member : ∀ {w}, S w → ∀ m ∈ w.members, S m.2

theorem hereditary_true : Hereditary (fun _ => True) :=
  ⟨fun _ _ _ => trivial, fun _ _ _ => trivial⟩

section Parts

variable {S : Written → Prop} (hS : Hereditary S)
include hS

/-- A record that is read from a document with a hereditary property is filled from members with it. -/
theorem gives_record_of {fill : α → String → Written → Reading α}
    (hfill : ∀ a key w, S w → P a → Gives P (fill a key w)) {old : α} (h : P old)
    (wanted : String) {w : Written} (hw : S w) : Gives P (record wanted fill old w) := by
  have hmembers := hS.member hw
  unfold record
  split
  · exact gives_pure h
  · generalize w.members = members at hmembers
    induction members generalizing old with
    | nil => exact gives_pure h
    | cons m rest ih =>
      rw [List.foldlM_cons]
      refine gives_bind (hfill _ _ _ (hmembers m List.mem_cons_self) h) fun a ha => ?_
      exact ih ha fun m hm => hmembers m (List.mem_cons_of_mem _ hm)
  · exact gives_refuse _ _ h

variable {fresh : α} {fill : α → Written → Reading α} (hfresh : P fresh)
  (hfill : ∀ a w, S w → P a → Gives P (fill a w))
include hfresh hfill

omit hS in
theorem gives_items_of {olds : List α} (h : ∀ a ∈ olds, P a) {ws : List Written}
    (hws : ∀ w ∈ ws, S w) : Gives (fun as => ∀ a ∈ as, P a) (items fresh fill olds ws) := by
  induction ws generalizing olds with
  | nil => cases olds <;> exact gives_pure (by simp)
  | cons w rest ih =>
    obtain ⟨hw, hrest⟩ := List.forall_mem_cons.mp hws
    have hcons : ∀ old olds, P old → (∀ a ∈ olds, P a) → Gives (fun as => ∀ a ∈ as, P a) (do
        let a ← fill old w
        return a :: (← items fresh fill olds rest)) := by
      intro old olds hold holds
      refine gives_bind (hfill old w hw hold) fun a ha => ?_
      refine gives_bind (ih holds hrest) fun as has => ?_
      exact gives_pure (List.forall_mem_cons.mpr ⟨ha, has⟩)
    cases olds with
    | nil => exact hcons fresh [] hfresh (by simp)
    | cons old olds =>
      obtain ⟨hold, holds⟩ := List.forall_mem_cons.mp h
      exact hcons old olds hold holds

theorem gives_list_of (wanted : String) {old : Option (List α)} (h : ∀ as ∈ old, ∀ a ∈ as, P a)
    {w : Written} (hw : S w) :
    Gives (fun o => ∀ as ∈ o, ∀ a ∈ as, P a) (list wanted fresh fill old w) := by
  unfold list
  split
  · exact gives_pure (by simp)
  · have hold : ∀ a ∈ old.getD [], P a := by
      cases old with
      | none => simp
      | some as => exact h as rfl
    refine gives_bind (gives_items_of hfresh hfill hold (hS.item hw)) fun as has => gives_pure ?_
    simpa using has
  · exact gives_refuse _ _ h

omit hS in
theorem gives_entry_of {old : Option α} (h : ∀ a ∈ old, P a) {w : Written} (hw : S w) :
    Gives (fun o => ∀ a ∈ o, P a) (entry fresh fill old w) := by
  have hold : P (old.getD fresh) := by
    cases old with
    | none => exact hfresh
    | some a => exact h a rfl
  have hsome : Gives (fun o => ∀ a ∈ o, P a) (do return some (← fill (old.getD fresh) w)) :=
    gives_bind (hfill _ w hw hold) fun a ha => gives_pure (by simpa using ha)
  unfold entry
  split
  · exact gives_pure (by simp)
  · exact hsome

end Parts

theorem gives_record {fill : α → String → Written → Reading α}
    (hfill : ∀ a key w, P a → Gives P (fill a key w)) {old : α} (h : P old) (wanted : String)
    (w : Written) : Gives P (record wanted fill old w) :=
  gives_record_of hereditary_true (fun a key w _ => hfill a key w) h wanted trivial

section Parts

variable {fresh : α} {fill : α → Written → Reading α} (hfresh : P fresh)
  (hfill : ∀ a w, P a → Gives P (fill a w))
include hfresh hfill

theorem gives_list (wanted : String) {old : Option (List α)} (h : ∀ as ∈ old, ∀ a ∈ as, P a)
    (w : Written) : Gives (fun o => ∀ as ∈ o, ∀ a ∈ as, P a) (list wanted fresh fill old w) :=
  gives_list_of hereditary_true hfresh (fun a w _ => hfill a w) wanted h trivial

theorem gives_entry {old : Option α} (h : ∀ a ∈ old, P a) (w : Written) :
    Gives (fun o => ∀ a ∈ o, P a) (entry fresh fill old w) :=
  gives_entry_of (S := fun _ => True) hfresh (fun a w _ => hfill a w) h trivial

end Parts

theorem of_run_eq_ok {r : Reading α} (h : Gives P r) {a : α} (hrun : run r = .ok a) : P a := by
  have hvalue := h {} none
  unfold run at hrun
  split at hrun
  · next b hresult =>
    obtain rfl := Except.ok.inj hrun
    have hsame : r {} none = (b, none) := hresult
    rwa [hsame] at hvalue
  · cases hrun

end Reading

open Reading

/-! ## What was read -/

/-- Counts are integers of 64 bits. -/
structure FileData.Counted (d : FileData) : Prop where
  fileSize : IsInt64 d.fileSize
  preview : ∀ p ∈ d.preview, IsInt64 p.rowCount

/-- A direction in its normal form: the two proper ones are not given by their names. -/
def Port.Normal (p : Port) : Prop :=
  Direction.ofName p.direction.name = p.direction

/-- A node of a supported kind that carries what its kind calls for. -/
structure Node.Decoded (n : Node) : Prop where
  payload : ∃ p, n.payload = some p ∧ n.kind.shape? = some p.shape ∧ (∀ s, p ≠ .hollow s) ∧
    ∀ d, p = .file d → d.Counted
  ports : ∀ p, some p ∈ n.inputs ++ n.outputs → p.Normal

/-- A flow with both of its lists, whose nodes carry what their kinds call for. -/
structure Flow.Decoded (f : Flow) : Prop where
  nodesListed : f.nodesListed = true
  connectionsListed : f.connectionsListed = true
  nodes : ∀ n, some n ∈ f.nodes → n.Decoded

theorem Direction.ofName_name_ofName (name : String) :
    ofName (ofName name).name = ofName name := by
  unfold ofName
  split
  · rfl
  · split
    · rfl
    · next hinput houtput => simp [Direction.name, hinput, houtput]

theorem Port.gives_fill (p : Port) (key : String) (w : Written) (h : p.Normal) :
    Gives Port.Normal (p.fill key w) := by
  unfold Port.fill
  split
  · exact gives_set _ _ fun _ => h
  split
  · exact gives_set _ _ fun _ => h
  split
  · exact gives_set _ _ fun _ => h
  split
  · exact gives_set _ _ fun _ => h
  split
  · exact gives_set _ _ fun _ => Direction.ofName_name_ofName _
  · exact gives_pure h

theorem Port.gives_read {o : Option Port} (h : ∀ p ∈ o, p.Normal) (w : Written) :
    Gives (fun o => ∀ p ∈ o, Port.Normal p) (Port.read o w) := by
  have hfresh : Port.Normal {} := rfl
  exact gives_entry hfresh (fun p w hp => gives_record Port.gives_fill hp _ w) h w

theorem gives_portList {old : List (Option Port)} (h : ∀ o ∈ old, ∀ p ∈ o, p.Normal) (w : Written) :
    Gives (fun ports => ∀ o ∈ ports, ∀ p ∈ o, Port.Normal p) (portList old w) := by
  have hnone : ∀ p ∈ (none : Option Port), p.Normal := by simp
  have hlist : Gives (fun o => ∀ ports ∈ o, ∀ o ∈ ports, ∀ p ∈ o, Port.Normal p)
      (list "[]*model.Port" none Port.read (some old) w) :=
    gives_list hnone (fun o w ho => Port.gives_read ho w) _ (by simpa using h) w
  refine gives_bind hlist fun o ho => gives_pure ?_
  cases o with
  | none => simp
  | some ports => exact ho ports rfl

theorem FilePreview.gives_fill (p : FilePreview) (key : String) (w : Written) (h : IsInt64 p.rowCount) :
    Gives (fun p => IsInt64 p.rowCount) (p.fill key w) := by
  unfold FilePreview.fill
  split
  · exact gives_set _ _ fun _ => h
  split
  · exact gives_set _ _ fun _ => h
  split
  · exact gives_set _ _ fun _ => h
  split
  · exact gives_inside _ _ (gives_bind (gives_intOf h _ w.tree) fun n hn => gives_pure hn)
  split
  · exact gives_set _ _ fun _ => h
  split
  · exact gives_pure h
  · exact gives_pure h

theorem FileData.gives_fill (d : FileData) (key : String) (w : Written) (h : d.Counted) :
    Gives FileData.Counted (d.fill key w) := by
  obtain ⟨hsize, hpreview⟩ := h
  unfold FileData.fill
  split
  · exact gives_set _ _ fun _ => ⟨hsize, hpreview⟩
  split
  · refine gives_inside _ _ (gives_bind (gives_intOf hsize _ w.tree) fun n hn => gives_pure ?_)
    exact ⟨hn, hpreview⟩
  split
  · refine gives_inside _ _ (gives_bind (gives_entry (P := fun p => IsInt64 p.rowCount)
      (by decide) (fun p w hp => gives_record FilePreview.gives_fill hp _ w) hpreview w)
      fun o ho => gives_pure ⟨hsize, ho⟩)
  split
  · exact gives_set _ _ fun _ => ⟨hsize, hpreview⟩
  · exact gives_pure ⟨hsize, hpreview⟩

/-! ### Nodes and flows -/

/-- A payload that was read is what was read for it, in the variant that was asked for. -/
theorem exists_of_wrapped {α : Type} {r : Reading α} {wrap : α → Payload}
    {refer : DocumentError → DocumentError} {p : Payload}
    (h : ((run r).mapError refer).map wrap = .ok p) : ∃ a, run r = .ok a ∧ p = wrap a := by
  cases hrun : run r with
  | ok a =>
    rw [hrun] at h
    exact ⟨a, rfl, (Except.ok.inj h).symm⟩
  | error e =>
    rw [hrun] at h
    cases h

theorem NodeKind.of_readPayload {kind : NodeKind} {id : String} {w : Written} {p : Payload}
    (h : kind.readPayload id w = .ok p) : kind.shape? = some p.shape ∧ (∀ s, p ≠ .hollow s) ∧
      ∀ d, p = .file d → d.Counted := by
  have hcounted : FileData.Counted {} := ⟨by decide, by simp⟩
  have hfile : ∀ d, run (record "model.FileInputData" FileData.fill {} w) = .ok d → d.Counted :=
    fun d => of_run_eq_ok (gives_record FileData.gives_fill hcounted _ w)
  cases kind with
  | function =>
    obtain ⟨d, -, rfl⟩ := exists_of_wrapped h
    exact ⟨rfl, nofun, nofun⟩
  | csvInput =>
    obtain ⟨d, hrun, rfl⟩ := exists_of_wrapped h
    refine ⟨rfl, nofun, ?_⟩
    rintro _ ⟨⟩
    exact hfile d hrun
  | excelInput =>
    obtain ⟨d, hrun, rfl⟩ := exists_of_wrapped h
    refine ⟨rfl, nofun, ?_⟩
    rintro _ ⟨⟩
    exact hfile d hrun
  | subFlow =>
    obtain ⟨d, -, rfl⟩ := exists_of_wrapped h
    exact ⟨rfl, nofun, nofun⟩
  | output =>
    obtain ⟨d, -, rfl⟩ := exists_of_wrapped h
    exact ⟨rfl, nofun, nofun⟩
  | other name => cases h

/-- Ports in their normal form throughout. -/
def Node.PortsNormal (n : Node) : Prop :=
  (∀ o ∈ n.inputs, ∀ p ∈ o, p.Normal) ∧ ∀ o ∈ n.outputs, ∀ p ∈ o, p.Normal

theorem NodeDraft.gives_fill (d : NodeDraft) (key : String) (w : Written) (h : d.node.PortsNormal) :
    Gives (fun d => d.node.PortsNormal) (d.fill key w) := by
  obtain ⟨hinputs, houtputs⟩ := h
  unfold NodeDraft.fill
  split
  · exact gives_set _ _ fun _ => ⟨hinputs, houtputs⟩
  split
  · exact gives_set _ _ fun _ => ⟨hinputs, houtputs⟩
  split
  · exact gives_set _ _ fun _ => ⟨hinputs, houtputs⟩
  split
  · exact gives_set _ _ fun _ => ⟨hinputs, houtputs⟩
  split
  · exact gives_inside _ _ (gives_bind (gives_portList hinputs w)
      fun ports hports => gives_pure ⟨hports, houtputs⟩)
  split
  · exact gives_inside _ _ (gives_bind (gives_portList houtputs w)
      fun ports hports => gives_pure ⟨hinputs, hports⟩)
  split
  · exact gives_pure ⟨hinputs, houtputs⟩
  · exact gives_pure ⟨hinputs, houtputs⟩

/-- A node is a draft with what its kind made of the data. -/
theorem Node.exists_of_ofWritten {w : Written} {n : Node} (h : Node.ofWritten w = .ok n) :
    ∃ d p, run (record "model.nodeJSON" NodeDraft.fill {} w) = .ok d ∧
      d.node.kind.readPayload d.node.id d.payload = .ok p ∧
      n = { d.node with payload := some p } := by
  unfold Node.ofWritten at h
  cases hrun : run (record "model.nodeJSON" NodeDraft.fill {} w) with
  | error e =>
    rw [hrun] at h
    cases h
  | ok d =>
    have hbind : (do
        let found ← d.node.kind.readPayload d.node.id d.payload
        return { d.node with payload := some found } : Except DocumentError Node) = .ok n := by
      rw [hrun] at h
      exact h
    cases hread : d.node.kind.readPayload d.node.id d.payload with
    | error e =>
      rw [hread] at hbind
      cases hbind
    | ok p =>
      rw [hread] at hbind
      exact ⟨d, p, rfl, hread, (Except.ok.inj hbind).symm⟩

theorem Node.decoded_of_ofWritten {w : Written} {n : Node} (h : Node.ofWritten w = .ok n) :
    n.Decoded := by
  obtain ⟨d, p, hrun, hread, rfl⟩ := Node.exists_of_ofWritten h
  have hfresh : Node.PortsNormal {} := ⟨by simp, by simp⟩
  have hgives : Gives (fun d => d.node.PortsNormal)
      (record "model.nodeJSON" NodeDraft.fill {} w) := gives_record NodeDraft.gives_fill hfresh _ w
  obtain ⟨hinputs, houtputs⟩ := of_run_eq_ok hgives hrun
  refine ⟨⟨p, rfl, NodeKind.of_readPayload hread⟩, ?_⟩
  intro port hport
  rcases List.mem_append.mp hport with hport | hport
  · exact hinputs _ hport port rfl
  · exact houtputs _ hport port rfl

theorem gives_nodeEntry (o : Option Node) (w : Written) :
    Gives (fun o => ∀ n ∈ o, Node.Decoded n) (nodeEntry o w) := by
  unfold nodeEntry
  split
  · exact gives_pure (by simp)
  · split
    · next n hn => exact gives_pure (by simpa using Node.decoded_of_ofWritten hn)
    · exact gives_bind_of_forall fun _ => gives_pure (by simp)

theorem Flow.gives_fill (f : Flow) (key : String) (w : Written) (h : f.Decoded) :
    Gives Flow.Decoded (f.fill key w) := by
  obtain ⟨hnodesListed, hconnectionsListed, hnodes⟩ := h
  unfold Flow.fill
  split
  · exact gives_set _ _ fun _ => ⟨hnodesListed, hconnectionsListed, hnodes⟩
  split
  · exact gives_set _ _ fun _ => ⟨hnodesListed, hconnectionsListed, hnodes⟩
  split
  · have hold : ∀ o ∈ f.nodes, ∀ n ∈ o, n.Decoded := fun o ho n hn => hnodes n (hn ▸ ho)
    have hnone : ∀ n ∈ (none : Option Node), n.Decoded := by simp
    refine gives_inside _ _ (gives_bind (gives_list hnone (fun o w _ => gives_nodeEntry o w)
      _ (by simpa using hold) w) fun found hfound => gives_pure ?_)
    refine ⟨hnodesListed, hconnectionsListed, fun n hn => ?_⟩
    cases found with
    | none => simp at hn
    | some nodes => exact hfound nodes rfl _ hn n rfl
  split
  · exact gives_set _ _ fun _ => ⟨hnodesListed, hconnectionsListed, hnodes⟩
  split
  · exact gives_set _ _ fun _ => ⟨hnodesListed, hconnectionsListed, hnodes⟩
  split
  · exact gives_set _ _ fun _ => ⟨hnodesListed, hconnectionsListed, hnodes⟩
  · exact gives_pure ⟨hnodesListed, hconnectionsListed, hnodes⟩

/-- Every flow that was read has both lists, and its nodes carry what their kinds call for. -/
theorem Flow.decoded_of_ofWritten {w : Written} {f : Flow} (h : Flow.ofWritten w = .ok f) :
    f.Decoded := by
  have hfresh : Flow.Decoded {} := ⟨rfl, rfl, by simp⟩
  exact of_run_eq_ok (gives_record Flow.gives_fill hfresh _ w) h

end FlowScript
