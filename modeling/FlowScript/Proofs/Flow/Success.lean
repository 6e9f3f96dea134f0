import FlowScript.Proofs.Flow.Reading
import FlowScript.Proofs.Json.Sorting

/-!
# Readings that succeed

A reading goes on after a complaint and the complaint stays, so a reading that succeeds has complained
nowhere: each of its parts succeeds.

## Main definitions

- `Persists` — a complaint from before is kept
- `Succeeds` — a reading complains of nothing and gives a value

## Main results

- `succeeds_bind_iff` — a sequence succeeds when both of its parts do
- `exists_succeeds_member`, `exists_succeeds_item` — every part of a document that was read was read
-/

namespace FlowScript

open Json Text

namespace Reading

variable {α β : Type}

/-! ## Complaints stay -/

/-- A complaint from before is kept. -/
def Persists (r : Reading α) : Prop :=
  ∀ place e, (r place (some e)).2 = some e

@[simp] theorem persists_pure (a : α) : Persists (pure a) :=
  fun _ _ => rfl

@[simp] theorem persists_bind {r : Reading α} {k : α → Reading β} (hr : Persists r)
    (hk : ∀ a, Persists (k a)) : Persists (r >>= k) := by
  intro place e
  show (k (r place (some e)).1 place (r place (some e)).2).2 = some e
  rw [hr place e]
  exact hk _ place e

@[simp] theorem persists_map_iff {r : Reading α} (f : α → β) : Persists (f <$> r) ↔ Persists r :=
  Iff.rfl

@[simp] theorem persists_inside {r : Reading α} (record member : String) (h : Persists r) :
    Persists (inside record member r) :=
  fun _ e => h _ e

@[simp] theorem persists_ite_iff {c : Prop} [Decidable c] {r r' : Reading α} :
    Persists (if c then r else r') ↔ if c then Persists r else Persists r' := by
  split <;> rfl

@[simp] theorem persists_complain (e : DocumentError) : Persists (complain e) :=
  fun _ _ => rfl

@[simp] theorem persists_refuse (found wanted : String) (old : α) :
    Persists (refuse found wanted old) :=
  persists_bind (persists_complain _) fun _ => persists_pure old

@[simp] theorem persists_textOf (wanted old : String) (t : Tree) : Persists (textOf wanted old t) := by
  cases t <;> simp [textOf]

@[simp] theorem persists_text (old : String) (t : Tree) : Persists (text old t) :=
  persists_textOf "string" old t

@[simp] theorem persists_real (old : Double) (t : Tree) : Persists (real old t) := by
  cases t with
  | number spelling =>
    rw [real]
    split <;> simp
  | _ => simp [real]

@[simp] theorem persists_intOf (wanted : String) (old : Int) (t : Tree) :
    Persists (intOf wanted old t) := by
  cases t with
  | number spelling =>
    rw [intOf]
    split <;> simp
  | _ => simp [intOf]

section Parts

variable {fresh : α} {fill : α → Written → Reading α} (hfill : ∀ a w, Persists (fill a w))
include hfill

@[simp] theorem persists_items (olds : List α) (ws : List Written) :
    Persists (items fresh fill olds ws) := by
  induction ws generalizing olds with
  | nil => cases olds <;> simp [items]
  | cons w rest ih => cases olds <;> simp [items, hfill, ih]

@[simp] theorem persists_list (wanted : String) (old : Option (List α)) (w : Written) :
    Persists (list wanted fresh fill old w) := by
  unfold list
  split <;> simp [persists_items hfill]

@[simp] theorem persists_entry (old : Option α) (w : Written) : Persists (entry fresh fill old w) := by
  unfold entry
  split <;> simp [hfill]

end Parts

section Members

variable {fill : α → String → Written → Reading α} (hfill : ∀ a key w, Persists (fill a key w))
include hfill

theorem persists_foldlM (members : List (List Char × Written)) (old : α) :
    Persists (members.foldlM (fun a m => fill a (String.ofList (unescape m.1)) m.2) old) := by
  induction members generalizing old with
  | nil => exact persists_pure old
  | cons m rest ih =>
    rw [List.foldlM_cons]
    exact persists_bind (hfill _ _ _) ih

@[simp] theorem persists_record (wanted : String) (old : α) (w : Written) :
    Persists (record wanted fill old w) := by
  unfold record
  split
  · exact persists_pure old
  · exact persists_foldlM hfill w.members old
  · exact persists_refuse _ _ _

end Members

@[simp] theorem persists_texts (old : Option (List String)) (w : Written) : Persists (texts old w) :=
  persists_list (fun old w => persists_text old w.tree) "[]string" old w

/-! ## What succeeded -/

/-- A reading complains of nothing and gives a value. -/
def Succeeds (r : Reading α) (place : Place) (a : α) : Prop :=
  r place none = (a, none)

@[simp] theorem succeeds_pure_iff {a b : α} {place : Place} :
    Succeeds (pure a) place b ↔ a = b :=
  ⟨fun h => congrArg Prod.fst h, fun h => h ▸ rfl⟩

@[simp] theorem succeeds_map_iff {r : Reading α} {f : α → β} {place : Place} {b : β} :
    Succeeds (f <$> r) place b ↔ ∃ a, Succeeds r place a ∧ f a = b := by
  constructor
  · intro h
    have hrun : (f (r place none).1, (r place none).2) = (b, none) := h
    obtain ⟨hvalue, hnone⟩ := Prod.mk.inj hrun
    exact ⟨(r place none).1, Prod.ext rfl hnone, hvalue⟩
  · rintro ⟨a, h, rfl⟩
    show (f (r place none).1, (r place none).2) = _
    rw [h]

theorem succeeds_bind_iff {r : Reading α} {k : α → Reading β} (hk : ∀ a, Persists (k a))
    {place : Place} {b : β} :
    Succeeds (r >>= k) place b ↔ ∃ a, Succeeds r place a ∧ Succeeds (k a) place b := by
  constructor
  · intro h
    have hrun : k (r place none).1 place (r place none).2 = (b, none) := h
    -- a complaint of the first reading would still be there
    have hnone : (r place none).2 = none := by
      cases hfirst : (r place none).2 with
      | none => rfl
      | some e =>
        have hkept := hk (r place none).1 place e
        rw [hfirst] at hrun
        rw [hrun] at hkept
        cases hkept
    refine ⟨(r place none).1, Prod.ext rfl hnone, ?_⟩
    rw [hnone] at hrun
    exact hrun
  · rintro ⟨a, hr, h⟩
    show k (r place none).1 place (r place none).2 = _
    rw [hr]
    exact h

@[simp] theorem succeeds_inside_iff {r : Reading α} {record member : String} {place : Place}
    {a : α} :
    Succeeds (inside record member r) place a ↔
      Succeeds r ⟨record, place.path ++ [member]⟩ a :=
  Iff.rfl

@[simp] theorem not_succeeds_refuse (found wanted : String) (old : α) (place : Place) (a : α) :
    ¬ Succeeds (refuse found wanted old) place a :=
  fun h => nomatch congrArg Prod.snd h

theorem run_eq_ok_iff {r : Reading α} {a : α} : run r = .ok a ↔ Succeeds r {} a := by
  unfold run Succeeds
  rw [show StateT.run (ReaderT.run r {}) none = r {} none from rfl]
  rcases r {} none with ⟨b, _ | e⟩
  · constructor
    · intro h
      rw [Except.ok.inj h]
    · intro h
      exact congrArg (fun outcome => Except.ok outcome.1) h
  · constructor
    · intro h
      cases h
    · intro h
      cases congrArg Prod.snd h

section Record

variable {fill : α → String → Written → Reading α} {a b : α} {place : Place}

theorem exists_succeeds_of_foldlM (hfill : ∀ a key w, Persists (fill a key w))
    {members : List (List Char × Written)}
    (h : Succeeds (members.foldlM (fun a m => fill a (String.ofList (unescape m.1)) m.2) a) place b)
    {m : List Char × Written} (hm : m ∈ members) :
    ∃ a' b', Succeeds (fill a' (String.ofList (unescape m.1)) m.2) place b' := by
  induction members generalizing a with
  | nil => cases hm
  | cons first rest ih =>
    rw [List.foldlM_cons, succeeds_bind_iff (persists_foldlM hfill rest)] at h
    obtain ⟨c, hfirst, hrest⟩ := h
    rcases List.mem_cons.mp hm with rfl | hm
    · exact ⟨a, c, hfirst⟩
    · exact ih hrest hm

/-- Every member of a written record that was read was read. -/
theorem exists_succeeds_member (hfill : ∀ a key w, Persists (fill a key w)) {spacing : Spacing}
    {depth : Nat} {ms : List (String × Tree)} {w : Written}
    (hw : w.Shows .escaped spacing depth (.record ms)) {wanted : String}
    (h : Succeeds (record wanted fill a w) place b) {m : String × Tree} (hm : m ∈ ms) :
    ∃ v : Written, v.Shows .escaped spacing (depth + 1) m.2 ∧
      ∃ a' b', Succeeds (fill a' m.1 v) place b' := by
  have hmembers := Written.members_spaced hw.wellFormed hw.tree hw.begins
  rw [List.forall₂_map_left_iff] at hmembers
  obtain ⟨v, hv, hkey, hshows⟩ := exists_of_forall₂_right hmembers.flip hm
  have htree := hw.tree
  rw [respelled_record] at htree
  rw [record, htree] at h
  obtain ⟨a', b', hfilled⟩ := exists_succeeds_of_foldlM hfill h hv
  rw [hkey, unescape_respell_escape] at hfilled
  exact ⟨v.2, hshows, a', b', hfilled⟩

end Record

/-- Every item of a list that was read was read. -/
theorem exists_succeeds_of_items {fill : α → Written → Reading α} (hfill : ∀ a w, Persists (fill a w))
    {fresh : α} {olds as : List α} {ws : List Written} {place : Place}
    (h : Succeeds (items fresh fill olds ws) place as) {w : Written} (hw : w ∈ ws) :
    ∃ a' b', Succeeds (fill a' w) place b' := by
  induction ws generalizing olds as with
  | nil => cases hw
  | cons first rest ih =>
    have hrest : ∀ olds a, Persists (do return a :: (← items fresh fill olds rest)) := by
      intro olds a
      simpa using persists_items hfill olds rest
    obtain ⟨old, olds', h⟩ : ∃ old olds', Succeeds (do
        let a ← fill old first
        return a :: (← items fresh fill olds' rest)) place as := by
      cases olds with
      | nil => exact ⟨fresh, [], h⟩
      | cons old olds' => exact ⟨old, olds', h⟩
    rw [succeeds_bind_iff (hrest olds')] at h
    obtain ⟨a, hfirst, hlast⟩ := h
    rcases List.mem_cons.mp hw with rfl | hw
    · exact ⟨old, a, hfirst⟩
    · simp only [bind_pure_comp, succeeds_map_iff] at hlast
      obtain ⟨bs, hbs, -⟩ := hlast
      exact ih hbs hw

/-- Every item of a written list that was read was read. -/
theorem exists_succeeds_item {fill : α → Written → Reading α} (hfill : ∀ a w, Persists (fill a w))
    {fresh : α} {spacing : Spacing} {depth : Nat} {ts : List Tree} {w : Written}
    (hw : w.Shows .escaped spacing depth (.array ts)) {wanted : String} {old o : Option (List α)}
    {place : Place} (h : Succeeds (list wanted fresh fill old w) place o) {t : Tree} (ht : t ∈ ts) :
    ∃ v : Written, v.Shows .escaped spacing (depth + 1) t ∧ ∃ a' b', Succeeds (fill a' v) place b' := by
  have hitems := Written.items_spaced hw.wellFormed hw.tree hw.begins
  obtain ⟨v, hv, hshows⟩ := exists_of_forall₂_right hitems.flip ht
  have htree := hw.tree
  rw [Tree.respelled] at htree
  rw [list, htree] at h
  simp only [bind_pure_comp, succeeds_map_iff] at h
  obtain ⟨as, has, -⟩ := h
  exact ⟨v, hshows, exists_succeeds_of_items hfill has hv⟩

/-- An entry that is a record was read as one. -/
theorem exists_succeeds_entry {fill : α → Written → Reading α} {fresh : α} {old o : Option α}
    {spacing : Spacing} {depth : Nat} {ms : List (String × Tree)} {w : Written}
    (hw : w.Shows .escaped spacing depth (.record ms)) {place : Place}
    (h : Succeeds (entry fresh fill old w) place o) : ∃ a b, Succeeds (fill a w) place b := by
  have htree := hw.tree
  rw [respelled_record] at htree
  rw [entry, htree] at h
  simp only [bind_pure_comp, succeeds_map_iff] at h
  obtain ⟨b, hb, -⟩ := h
  exact ⟨_, b, hb⟩

end Reading

open Reading

theorem Position.persists_fill (p : Position) (key : String) (w : Written) :
    Persists (p.fill key w) := by
  simp [Position.fill]

@[simp] theorem Position.persists_read (p : Position) (w : Written) : Persists (Position.read p w) :=
  persists_record Position.persists_fill _ p w

theorem Viewport.persists_fill (v : Viewport) (key : String) (w : Written) :
    Persists (v.fill key w) := by
  simp [Viewport.fill]

@[simp] theorem Viewport.persists_read (v : Viewport) (w : Written) : Persists (Viewport.read v w) :=
  persists_record Viewport.persists_fill _ v w

theorem Port.persists_fill (p : Port) (key : String) (w : Written) : Persists (p.fill key w) := by
  simp [Port.fill]

theorem Port.persists_read (o : Option Port) (w : Written) : Persists (Port.read o w) :=
  persists_entry (persists_record Port.persists_fill _) o w

@[simp] theorem persists_portList (old : List (Option Port)) (w : Written) :
    Persists (portList old w) :=
  persists_bind (persists_list Port.persists_read _ _ w) fun _ => persists_pure _

theorem Connection.persists_fill (c : Connection) (key : String) (w : Written) :
    Persists (c.fill key w) := by
  simp [Connection.fill]

theorem Connection.persists_read (o : Option Connection) (w : Written) :
    Persists (Connection.read o w) :=
  persists_entry (persists_record Connection.persists_fill _) o w

theorem FilePreview.persists_fill (p : FilePreview) (key : String) (w : Written) :
    Persists (p.fill key w) := by
  simp [FilePreview.fill]

theorem FileData.persists_fill (d : FileData) (key : String) (w : Written) :
    Persists (d.fill key w) := by
  have hpreview : Persists (entry {} (record "model.FilePreview" FilePreview.fill) d.preview w) :=
    persists_entry (persists_record FilePreview.persists_fill _) d.preview w
  simp [FileData.fill, hpreview]

theorem persists_nodeEntry (o : Option Node) (w : Written) : Persists (nodeEntry o w) := by
  unfold nodeEntry
  split
  · exact persists_pure none
  · split <;> simp

theorem Flow.persists_fill (f : Flow) (key : String) (w : Written) : Persists (f.fill key w) := by
  have hnodes : Persists (list "[]*model.Node" none nodeEntry (some f.nodes) w) :=
    persists_list persists_nodeEntry _ _ w
  have hconnections : Persists
      (list "[]*model.Connection" none Connection.read (some f.connections) w) :=
    persists_list Connection.persists_read _ _ w
  simp [Flow.fill, hnodes, hconnections]

end FlowScript
