import FlowScript.Proofs.Flow.Success
import FlowScript.Proofs.Flow.YamlStorage

/-!
# Flows that come back from YAML

A size or a count that is no longer an integer of 64 bits when it has passed a double precision number
stops the reading, and a number in rows that cannot be held stops the writing. So a flow that comes
back at all fits.

## Main results

- `Flow.fits_of_decode_encode_yaml` — a flow that comes back from YAML fits
-/

namespace FlowScript

open Json Text Reading

theorem exists_mem_of_optionRel {α β : Type} {R : α → β → Prop} {o : Option α} {o' : Option β}
    (h : Option.Rel R o o') {a : α} (ha : a ∈ o) : ∃ b ∈ o', R a b := by
  cases h with
  | none => cases ha
  | some h =>
    obtain rfl := Option.some.inj ha
    exact ⟨_, rfl, h⟩

theorem isSome_yamlCount? {n : Int} {t : Tree} (h : Becomes (.int n) t) {wanted : String} {old : Int}
    {place : Place} {m : Int} (hread : Succeeds (intOf wanted old (t.respelled .escaped)) place m) :
    (yamlCount? n).isSome = true := by
  obtain ⟨v, hvalue, rfl⟩ := h
  rw [Tree.int, Value.ofTree] at hvalue
  unfold yamlCount?
  cases hx : Binary64.read (signedDecimal n) with
  | number x =>
    simp only [hx] at hvalue ⊢
    obtain rfl := Except.ok.inj hvalue
    rw [Value.toTree, Tree.real, Tree.respelled, intOf] at hread
    cases hcount : wholeNumber? (NumberLayout.document.render x) with
    | some n => rfl
    | none =>
      rw [hcount] at hread
      exact absurd hread (not_succeeds_refuse _ _ _ _ _)
  | _ => simp [hx] at hvalue

variable {spacing : Spacing} {depth : Nat} {w : Written}

theorem FilePreview.fits_of_succeeds {p q : FilePreview} {rows : Option Tree}
    (hrows : Option.Rel Spells p.rows rows) {t : Tree} (h : Becomes (.record (p.members rows)) t)
    (hw : w.Shows .escaped spacing depth t) {wanted : String} {a : FilePreview} {place : Place}
    (hread : Succeeds (record wanted FilePreview.fill a w) place q) : p.Fits := by
  obtain ⟨sorted, rfl, hfound⟩ := exists_of_becomes_record (p.nodup_keys _ rows) h
  constructor
  · obtain ⟨count, hcount, hmem⟩ := hfound ("rowCount", .int p.rowCount) (by simp [listed])
    obtain ⟨v, hv, a', b', hfill⟩ := exists_succeeds_member FilePreview.persists_fill hw hread hmem
    simp +decide only [FilePreview.fill, if_true, if_false, succeeds_inside_iff, bind_pure_comp,
      succeeds_map_iff, hv.tree] at hfill
    obtain ⟨n, hn, -⟩ := hfill
    exact isSome_yamlCount? hcount hn
  · intro s hs u hu
    obtain ⟨u, hmem, hspells⟩ := exists_mem_of_optionRel hrows hs
    obtain rfl := Except.ok.inj (hspells.symm.trans hu)
    obtain ⟨u', hu', -⟩ := hfound ("jsonData", u) (by
      simpa [listed] using Or.inr hmem)
    exact ⟨u', hu'⟩

theorem FileData.fits_of_succeeds {d e : FileData} (h : ∀ p ∈ d.preview, p.Storable)
    {preview : Option Tree} (hpreview : Option.Rel FilePreview.WritesAs d.preview preview) {t : Tree}
    (ht : Becomes (.record (d.members preview)) t) (hw : w.Shows .escaped spacing depth t)
    {wanted : String} {a : FileData} {place : Place}
    (hread : Succeeds (record wanted FileData.fill a w) place e) : d.Fits := by
  rw [d.members_eq] at ht
  obtain ⟨sorted, rfl, hfound⟩ := exists_of_becomes_record (d.nodup_keys _ preview) ht
  constructor
  · by_cases hzero : d.fileSize = 0
    · rw [hzero]
      decide +kernel
    · obtain ⟨size, hsize, hmem⟩ := hfound ("fileSize", .int d.fileSize) (by
        simp [listed, FileData.size, hzero])
      obtain ⟨v, hv, a', b', hfill⟩ := exists_succeeds_member FileData.persists_fill hw hread hmem
      simp +decide only [FileData.fill, if_true, if_false, succeeds_inside_iff, bind_pure_comp,
        succeeds_map_iff, hv.tree] at hfill
      obtain ⟨n, hn, -⟩ := hfill
      exact isSome_yamlCount? hsize hn
  · intro p hp
    obtain ⟨u, hu, hwrites⟩ := exists_mem_of_optionRel hpreview hp
    obtain ⟨rows, hrows⟩ := exists_optionRel (h p hp).rows
    obtain rfl := Except.ok.inj (hwrites.symm.trans (FilePreview.toTree_eq hrows))
    obtain ⟨u', hu', hmem⟩ := hfound ("filePreview", .record (p.members rows)) (by
      simpa [listed, mem_textUnlessEmpty] using hu)
    obtain ⟨v, hv, a', b', hfill⟩ := exists_succeeds_member FileData.persists_fill hw hread hmem
    simp +decide only [FileData.fill, if_true, if_false, succeeds_inside_iff, bind_pure_comp,
      succeeds_map_iff] at hfill
    obtain ⟨o, ho, -⟩ := hfill
    obtain ⟨sorted', rfl, -⟩ := exists_of_becomes_record (p.nodup_keys _ rows) hu'
    obtain ⟨b, q, hq⟩ := exists_succeeds_entry hv ho
    exact FilePreview.fits_of_succeeds hrows hu' hv hq

theorem exists_of_readPayload_file {kind : NodeKind} (hshape : kind.shape? = some .file) {id : String}
    {q : Payload} (h : kind.readPayload id w = .ok q) :
    ∃ d, Succeeds (record "model.FileInputData" FileData.fill {} w) {} d := by
  cases hrun : run (record "model.FileInputData" FileData.fill {} w) with
  | ok d => exact ⟨d, run_eq_ok_iff.mp hrun⟩
  | error e =>
    cases kind <;> cases hshape
    all_goals
      simp only [NodeKind.readPayload, hrun] at h
      cases h

theorem Payload.fits_of_readPayload {d : FileData} (h : ∀ p ∈ d.preview, p.Storable)
    {kind : NodeKind} (hshape : kind.shape? = some .file) {t u : Tree}
    (hwrite : (Payload.file d).toTree = .ok t) (ht : Becomes t u)
    (hw : w.Shows .escaped spacing depth u) {id : String} {q : Payload}
    (hread : kind.readPayload id w = .ok q) : d.Fits := by
  obtain ⟨preview, hpreview⟩ := exists_optionRel fun p hp =>
    (FilePreview.exists_keeps (h p hp)).imp fun _ hkeeps => hkeeps.written
  have hpreview : Option.Rel FilePreview.WritesAs d.preview preview := hpreview
  obtain rfl := Except.ok.inj (hwrite.symm.trans (Payload.toTree_file hpreview))
  obtain ⟨e, he⟩ := exists_of_readPayload_file hshape hread
  exact FileData.fits_of_succeeds h hpreview ht hw he

/-! ## Nodes and flows -/

theorem Node.fits_of_ofWritten {n m : Node} (h : n.Storable) {x y : Binary64}
    (hposition : n.position = ⟨.finite x, .finite y⟩) {t u : Tree} (hwrite : n.toTree = .ok t)
    (ht : Becomes t u) (hw : w.Shows .escaped .none depth u) (hread : Node.ofWritten w = .ok m)
    {d : FileData} (hd : n.payload = some (.file d)) : d.Fits := by
  obtain ⟨p, hp, hshape, hstorable⟩ := h.payload
  obtain rfl := Option.some.inj (hp.symm.trans hd)
  obtain ⟨payload, hkeeps⟩ := Payload.exists_keeps hstorable hshape n.id
  obtain rfl : Tree.record (n.members x y payload) = t :=
    Except.ok.inj ((Node.toTree_eq hposition hp hkeeps.written).symm.trans hwrite)
  obtain ⟨sorted, -, hfound⟩ := exists_of_becomes_record (n.nodup_keys _ _ _ payload) ht
  obtain ⟨payload', hpayload, -⟩ := hfound ("data", payload) (by simp [listed])
  have hx : ReadsBack x := h.x x (by rw [hposition])
  have hy : ReadsBack y := h.y y (by rw [hposition])
  obtain ⟨ms, hbecomes, heq⟩ := Node.exists_becomes h hposition hx hy hpayload
  obtain rfl := ht.unique hbecomes
  obtain ⟨carried, hcarried, hnode⟩ := heq w hw
  rw [hnode] at hread
  cases hfound : n.kind.readPayload n.id carried with
  | ok q => exact Payload.fits_of_readPayload hstorable.2 hshape hkeeps.written hpayload hcarried hfound
  | error e =>
    rw [hfound] at hread
    cases hread

/-- A node that is there is read as one. -/
theorem exists_of_succeeds_nodeEntry {old o : Option Node} {ms : List (String × Tree)}
    {place : Place} (hw : w.Shows .escaped spacing depth (.record ms))
    (h : Succeeds (nodeEntry old w) place o) : ∃ m, Node.ofWritten w = .ok m := by
  have htree := hw.tree
  rw [respelled_record] at htree
  rw [nodeEntry, htree] at h
  cases hn : Node.ofWritten w with
  | ok m => exact ⟨m, rfl⟩
  | error e =>
    simp only [hn] at h
    cases congrArg Prod.snd h

theorem Node.fits_of_nodeEntry {n : Node} (h : n.Storable) (hfinite : n.IsFinite) {t u : Tree}
    (hwrite : n.toTree = .ok t) (ht : Becomes t u) (hw : w.Shows .escaped .none depth u)
    {old o : Option Node} {place : Place} (hread : Succeeds (nodeEntry old w) place o) {d : FileData}
    (hd : n.payload = some (.file d)) : d.Fits := by
  obtain ⟨p, hp, hshape, hstorable⟩ := h.payload
  obtain ⟨payload, hkeeps⟩ := Payload.exists_keeps hstorable hshape n.id
  obtain ⟨x, y, hposition, -, -⟩ := Position.exists_eq_finite h.x h.y hfinite
  obtain rfl : Tree.record (n.members x y payload) = t :=
    Except.ok.inj ((Node.toTree_eq hposition hp hkeeps.written).symm.trans hwrite)
  obtain ⟨sorted, rfl, -⟩ := exists_of_becomes_record (n.nodup_keys _ _ _ payload) ht
  obtain ⟨m, hm⟩ := exists_of_succeeds_nodeEntry hw hread
  exact Node.fits_of_ofWritten h hposition hwrite ht hw hm hd

theorem forall₂_of_mapM {ε α β : Type} {write : α → Except ε β} {as : List α} {bs : List β}
    (h : as.mapM write = .ok bs) : List.Forall₂ (fun a b => write a = .ok b) as bs := by
  induction as generalizing bs with
  | nil =>
    obtain rfl := Except.ok.inj h
    exact .nil
  | cons a as ih =>
    rw [List.mapM_cons] at h
    cases hhead : write a with
    | error e =>
      rw [hhead] at h
      cases h
    | ok b =>
      cases hrest : as.mapM write with
      | error e =>
        rw [hhead, hrest] at h
        cases h
      | ok cs =>
        rw [hhead, hrest] at h
        obtain rfl := Except.ok.inj h
        exact .cons hhead (ih hrest)

theorem Flow.fits_of_ofWritten {f g : Flow} (h : f.Storable) (hfinite : f.IsFinite) {t u : Tree}
    (hwrite : f.toTree = .ok t) (ht : Becomes t u) (hw : w.Shows .escaped .none depth u)
    (hread : Flow.ofWritten w = .ok g) : f.Fits := by
  obtain ⟨ts, -, hts, -⟩ := exists_keeps_items fun o ho =>
    nodeEntry_exists_keeps (fun n hn => h.nodes n (hn ▸ ho)) fun n hn => hfinite.nodes n (hn ▸ ho)
  obtain ⟨x, y, zoom, hviewport, -⟩ :=
    Viewport.exists_eq_finite h.x h.y h.zoom ⟨hfinite.x, hfinite.y, hfinite.zoom⟩
  obtain rfl := Except.ok.inj
    ((Flow.toTree_eq h.nodesListed h.connectionsListed hviewport hts).symm.trans hwrite)
  obtain ⟨sorted, rfl, hfound⟩ := exists_of_becomes_record (f.nodup_keys (.array ts) _ _) ht
  obtain ⟨nodes, hnodes, hmem⟩ := hfound ("nodes", .array ts) (by simp [listed])
  obtain ⟨us, rfl, hbecome⟩ := exists_of_becomes_array hnodes
  obtain ⟨v, hv, a, b, hfill⟩ :=
    exists_succeeds_member Flow.persists_fill hw (run_eq_ok_iff.mp hread) hmem
  simp +decide only [Flow.fill, if_true, if_false, succeeds_inside_iff, bind_pure_comp,
    succeeds_map_iff] at hfill
  obtain ⟨found, hlist, -⟩ := hfill
  intro n hn d hd
  obtain ⟨t, ht, hnode⟩ := exists_of_forall₂_right (forall₂_of_mapM hts).flip hn
  obtain ⟨u, hu, hbecomes⟩ := exists_of_forall₂_right hbecome.flip ht
  obtain ⟨vn, hvn, old, o, hentry⟩ := exists_succeeds_item persists_nodeEntry hv hlist hu
  exact Node.fits_of_nodeEntry (h.nodes n hn) (hfinite.nodes n hn) hnode hbecomes hvn hentry hd

variable {yaml : Yaml.Library}

/-- A flow with a number that cannot be held is not written as YAML. -/
theorem exists_of_encode_yaml {f : Flow} {t : Tree} (h : f.toTree = .ok t) {text : List Char}
    (hencode : f.encodeWith yaml .yaml = .ok text) : ∃ v, Value.ofTree t = .ok v := by
  cases hvalue : Value.ofTree t with
  | ok v => exact ⟨v, rfl⟩
  | error e =>
    simp only [Flow.encodeWith, h, hvalue, Except.mapError, bind, Except.bind] at hencode
    cases hreadable : !t.isReadable <;> simp only [hreadable] at hencode <;> cases hencode

/-- A flow that comes back from YAML fits. -/
theorem Flow.fits_of_decode_encode_yaml {f g : Flow} (h : f.Storable) (hfinite : f.IsFinite)
    (hyaml : f.ComesBackFromYaml yaml) {text : List Char}
    (hencode : f.encodeWith yaml .yaml = .ok text)
    (hdecode : Flow.decodeWith yaml text .yaml = .ok g) : f.Fits := by
  obtain ⟨t, hwrite, -⟩ := Flow.exists_written h hfinite
  have hdepth := h.depth t hwrite
  obtain ⟨v, hvalue⟩ := exists_of_encode_yaml hwrite hencode
  obtain rfl := Except.ok.inj ((encode_yaml_eq hwrite hdepth hvalue).symm.trans hencode)
  obtain ⟨d, hdata, hback⟩ := hyaml t v hwrite hvalue
  have hdepth' := Nat.le_trans (depth_le_of_ofTree hvalue) hdepth
  obtain ⟨w, hw, heq⟩ := decode_yaml_eq hdata (Yaml.toTree_of_comesBackAs (ofTree_sorted hvalue) hback)
    v.wellFormed_toTree hdepth'
  rw [heq] at hdecode
  cases hread : Flow.ofWritten w with
  | ok g => exact Flow.fits_of_ofWritten h hfinite hwrite ⟨v, hvalue, rfl⟩ hw hread
  | error e =>
    rw [hread] at hdecode
    cases hdecode

end FlowScript
