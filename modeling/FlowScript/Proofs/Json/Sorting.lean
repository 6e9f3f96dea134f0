import FlowScript.Proofs.Json.Data
import Mathlib.Data.List.Forall2

/-!
# Documents by way of data

A document that is read as data and written from it is another document: the members of its objects
are sorted, numbers are spelled as they print, and strings have the fewest escapes. Here it is told
part by part what becomes of a document, as far as all of its numbers can be held.

## Main definitions

- `insertMembers` — members put into sorted members one by one
- `Becomes` — what a document is after it was read as data and written from it

## Main results

- `insertMembers_eq_of_perm` — members in any order are sorted into the same list
- `ofTree_sorted`, `depth_le_of_ofTree` — data that was read is in its normal form, and not deeper
- `becomes_array`, `becomes_record` — what becomes of a list and of a record
-/

namespace FlowScript.Json

open Text

/-! ## Sorting members -/

section Members

variable {α : Type} {done members : List (String × α)} {key : String} {value : α}

/-- Members put into sorted members one by one. -/
def insertMembers (done members : List (String × α)) : List (String × α) :=
  members.foldl (fun acc m => insertMember m.1 m.2 acc) done

theorem mem_insertMember {m : String × α} (h : m ∈ insertMember key value done) :
    m = (key, value) ∨ m ∈ done := by
  induction done with
  | nil => exact Or.inl (List.mem_singleton.mp h)
  | cons first rest ih =>
    obtain ⟨k, v⟩ := first
    rw [insertMember] at h
    split at h
    · exact List.mem_cons.mp h
    split at h
    · exact (List.mem_cons.mp h).imp_right (List.mem_cons_of_mem _)
    · rcases List.mem_cons.mp h with rfl | h
      · exact Or.inr List.mem_cons_self
      · exact (ih h).imp_right (List.mem_cons_of_mem _)

theorem pairwise_insertMember (h : done.Pairwise (fun a b => a.1 < b.1)) :
    (insertMember key value done).Pairwise (fun a b => a.1 < b.1) := by
  induction done with
  | nil => exact List.pairwise_singleton _ _
  | cons first rest ih =>
    obtain ⟨k, v⟩ := first
    obtain ⟨hfirst, hrest⟩ := List.pairwise_cons.mp h
    rw [insertMember]
    by_cases hlt : key < k
    · rw [if_pos hlt]
      refine List.pairwise_cons.mpr ⟨?_, h⟩
      intro m hm
      rcases List.mem_cons.mp hm with rfl | hm
      · exact hlt
      · exact String.lt_trans hlt (hfirst m hm)
    by_cases heq : key = k
    · rw [if_neg hlt, if_pos heq]
      subst heq
      exact List.pairwise_cons.mpr ⟨hfirst, hrest⟩
    · rw [if_neg hlt, if_neg heq]
      refine List.pairwise_cons.mpr ⟨?_, ih hrest⟩
      intro m hm
      rcases mem_insertMember hm with rfl | hm
      · exact String.not_le.mp fun hle => heq (String.le_antisymm hle (String.not_lt.mp hlt))
      · exact hfirst m hm

theorem insertMember_perm (h : ∀ m ∈ done, key ≠ m.1) :
    (insertMember key value done).Perm ((key, value) :: done) := by
  induction done with
  | nil => exact .refl _
  | cons first rest ih =>
    obtain ⟨k, v⟩ := first
    rw [insertMember]
    split
    · exact .refl _
    · rw [if_neg (h (k, v) List.mem_cons_self)]
      exact ((ih fun m hm => h m (List.mem_cons_of_mem _ hm)).cons _).trans (.swap _ _ _)

theorem mem_insertMembers {m : String × α} (h : m ∈ insertMembers done members) :
    m ∈ done ∨ m ∈ members := by
  induction members generalizing done with
  | nil => exact Or.inl h
  | cons first rest ih =>
    rcases ih h with h | h
    · rcases mem_insertMember h with rfl | h
      · exact Or.inr List.mem_cons_self
      · exact Or.inl h
    · exact Or.inr (List.mem_cons_of_mem _ h)

theorem pairwise_insertMembers (h : done.Pairwise (fun a b => a.1 < b.1)) :
    (insertMembers done members).Pairwise (fun a b => a.1 < b.1) := by
  induction members generalizing done with
  | nil => exact h
  | cons first rest ih => exact ih (pairwise_insertMember h)

theorem insertMembers_perm (h : ((done ++ members).map Prod.fst).Nodup) :
    (insertMembers done members).Perm (done ++ members) := by
  induction members generalizing done with
  | nil =>
    rw [List.append_nil]
    exact .refl _
  | cons first rest ih =>
    have hswap : (done ++ first :: rest).Perm ((first :: done) ++ rest) := List.perm_middle
    have hkeys : ((first :: (done ++ rest)).map Prod.fst).Nodup := (hswap.map _).nodup_iff.mp h
    rw [List.map_cons, List.nodup_cons] at hkeys
    have hfresh : ∀ m ∈ done, first.1 ≠ m.1 := by
      intro m hm heq
      exact hkeys.1 (List.mem_map.mpr ⟨m, List.mem_append_left _ hm, heq.symm⟩)
    have hinsert : (insertMember first.1 first.2 done).Perm (first :: done) :=
      insertMember_perm hfresh
    have hrest := (hinsert.append_right rest).trans hswap.symm
    exact (ih ((hrest.map _).nodup_iff.mpr h)).trans hrest

theorem nodup_of_sorted (h : members.Pairwise (fun a b => a.1 < b.1)) :
    (members.map Prod.fst).Nodup := by
  refine List.pairwise_map.mpr (h.imp ?_)
  intro a b hlt heq
  rw [heq] at hlt
  exact String.lt_irrefl _ hlt

/-- Members in any order are sorted into the one list that has them in order. -/
theorem insertMembers_eq_of_perm {sorted : List (String × α)}
    (hsorted : sorted.Pairwise (fun a b => a.1 < b.1)) (h : members.Perm sorted) :
    insertMembers [] members = sorted := by
  have hkeys : (members.map Prod.fst).Nodup :=
    (h.map _).nodup_iff.mpr (nodup_of_sorted hsorted)
  refine List.Perm.eq_of_pairwise ?_ (pairwise_insertMembers .nil) hsorted
    ((insertMembers_perm hkeys).trans h)
  intro a b _ _ hab hba
  exact absurd hba (String.lt_asymm hab)

end Members

/-! ## Data that was read -/

/-- What is read of a member. -/
def MemberHolds (m : List Char × Tree) (v : String × Value) : Prop :=
  String.ofList (unescape m.1) = v.1 ∧ Value.ofTree m.2 = .ok v.2

theorem ofItems_eq_ok_iff {items : List Tree} {vs : List Value} :
    ofItems items = .ok vs ↔ List.Forall₂ (fun t v => Value.ofTree t = .ok v) items vs := by
  induction items generalizing vs with
  | nil => simp [ofItems, eq_comm]
  | cons item rest ih =>
    simp only [ofItems, List.forall₂_cons_left_iff, ← ih]
    cases hitem : Value.ofTree item with
    | error e => simp
    | ok v =>
      cases hrest : ofItems rest with
      | error e => simp
      | ok ws =>
        constructor
        · intro h
          exact ⟨v, ws, rfl, rfl, (Except.ok.inj h).symm⟩
        · rintro ⟨v, ws, ⟨⟩, ⟨⟩, rfl⟩
          rfl

theorem ofMembers_eq_ok_iff {members : List (List Char × Tree)}
    {done found : List (String × Value)} :
    ofMembers done members = .ok found ↔
      ∃ vs, List.Forall₂ MemberHolds members vs ∧ insertMembers done vs = found := by
  induction members generalizing done with
  | nil => simp [ofMembers, insertMembers]
  | cons member rest ih =>
    obtain ⟨key, value⟩ := member
    rw [ofMembers]
    constructor
    · intro h
      cases hvalue : Value.ofTree value with
      | error e => simp [hvalue] at h
      | ok v =>
        simp only [hvalue] at h
        obtain ⟨vs, hvs, hfound⟩ := ih.mp h
        exact ⟨(String.ofList (unescape key), v) :: vs, .cons ⟨rfl, hvalue⟩ hvs, hfound⟩
    · rintro ⟨vs, hvs, hfound⟩
      obtain ⟨v, ws, ⟨hkey, hvalue⟩, hws, rfl⟩ := List.forall₂_cons_left_iff.mp hvs
      simp only [hvalue]
      rw [hkey]
      exact ih.mpr ⟨ws, hws, hfound⟩

theorem ofTree_array_eq_ok_iff {items : List Tree} {v : Value} :
    Value.ofTree (.array items) = .ok v ↔
      ∃ vs, List.Forall₂ (fun t v => Value.ofTree t = .ok v) items vs ∧ .array vs = v := by
  rw [Value.ofTree]
  cases h : ofItems items with
  | error e => simp [Except.map, ← ofItems_eq_ok_iff, h]
  | ok vs => simp [Except.map, ← ofItems_eq_ok_iff, h]

theorem ofTree_object_eq_ok_iff {members : List (List Char × Tree)} {v : Value} :
    Value.ofTree (.object members) = .ok v ↔
      ∃ vs, List.Forall₂ MemberHolds members vs ∧ .object (insertMembers [] vs) = v := by
  rw [Value.ofTree]
  cases h : ofMembers [] members with
  | error e =>
    have hnone : ∀ vs, ¬ List.Forall₂ MemberHolds members vs := by
      intro vs hvs
      rw [ofMembers_eq_ok_iff.mpr ⟨vs, hvs, rfl⟩] at h
      cases h
    simp [Except.map, hnone]
  | ok found =>
    obtain ⟨vs, hvs, rfl⟩ := ofMembers_eq_ok_iff.mp h
    constructor
    · intro heq
      exact ⟨vs, hvs, Except.ok.inj heq⟩
    · rintro ⟨ws, hws, rfl⟩
      rw [ofMembers_eq_ok_iff.mpr ⟨ws, hws, rfl⟩] at h
      rw [← Except.ok.inj h]
      rfl

theorem exists_of_forall₂_right {α β : Type} {R : α → β → Prop} {as : List α} {bs : List β}
    (h : List.Forall₂ R as bs) {b : β} (hb : b ∈ bs) : ∃ a ∈ as, R a b := by
  induction h with
  | nil => cases hb
  | cons hhead _ ih =>
    rcases List.mem_cons.mp hb with rfl | hb
    · exact ⟨_, List.mem_cons_self, hhead⟩
    · obtain ⟨a, ha, hab⟩ := ih hb
      exact ⟨a, List.mem_cons_of_mem _ ha, hab⟩

theorem forall₂_imp_of_mem {α β : Type} {R S : α → β → Prop} {as : List α} {bs : List β}
    (h : List.Forall₂ R as bs) (himp : ∀ a ∈ as, ∀ b, R a b → S a b) : List.Forall₂ S as bs :=
  ((List.forall₂_and_left as bs).mpr ⟨fun _ ha => ha, h⟩).imp fun a b hab => himp a hab.1 b hab.2

theorem map_eq_map_of_forall₂ {α β γ : Type} {R : α → β → Prop} {f : α → γ} {g : β → γ}
    {as : List α} {bs : List β} (h : List.Forall₂ R as bs) (heq : ∀ a b, R a b → f a = g b) :
    as.map f = bs.map g := by
  induction h with
  | nil => rfl
  | cons hhead _ ih => rw [List.map_cons, List.map_cons, heq _ _ hhead, ih]

theorem ofTree_sorted {t : Tree} {v : Value} (h : Value.ofTree t = .ok v) : v.Sorted := by
  induction t using Tree.induction generalizing v with
  | null =>
    obtain rfl := Except.ok.inj h
    exact .null
  | bool b =>
    obtain rfl := Except.ok.inj h
    exact .bool b
  | number text =>
    rw [Value.ofTree] at h
    split at h
    · obtain rfl := Except.ok.inj h
      exact .number _
    · cases h
  | string body =>
    obtain rfl := Except.ok.inj h
    exact .string _
  | array items ih =>
    obtain ⟨vs, hvs, rfl⟩ := ofTree_array_eq_ok_iff.mp h
    refine .array ?_
    intro v hv
    obtain ⟨t, ht, hread⟩ := exists_of_forall₂_right hvs hv
    exact ih t ht hread
  | object members ih =>
    obtain ⟨vs, hvs, rfl⟩ := ofTree_object_eq_ok_iff.mp h
    refine .object (pairwise_insertMembers .nil) ?_
    intro m hm
    obtain ⟨member, hmember, -, hread⟩ :=
      exists_of_forall₂_right hvs ((mem_insertMembers hm).resolve_left List.not_mem_nil)
    exact ih member hmember hread

theorem depth_le_of_ofTree {t : Tree} {v : Value} (h : Value.ofTree t = .ok v) :
    v.toTree.depth ≤ t.depth := by
  induction t using Tree.induction generalizing v with
  | null =>
    obtain rfl := Except.ok.inj h
    exact Nat.le_refl _
  | bool b =>
    obtain rfl := Except.ok.inj h
    exact Nat.le_refl _
  | number text =>
    rw [Value.ofTree] at h
    split at h
    · obtain rfl := Except.ok.inj h
      exact Nat.le_refl _
    · cases h
  | string body =>
    obtain rfl := Except.ok.inj h
    exact Nat.le_refl _
  | array items ih =>
    obtain ⟨vs, hvs, rfl⟩ := ofTree_array_eq_ok_iff.mp h
    rw [Value.toTree, toItems_eq_map, Tree.depth, Tree.depth]
    refine Nat.succ_le_succ (itemsDepth_le ?_)
    intro u hu
    obtain ⟨v, hv, rfl⟩ := List.mem_map.mp hu
    obtain ⟨t, ht, hread⟩ := exists_of_forall₂_right hvs hv
    exact Nat.le_trans (ih t ht hread) (depth_le_itemsDepth ht)
  | object members ih =>
    obtain ⟨vs, hvs, rfl⟩ := ofTree_object_eq_ok_iff.mp h
    rw [Value.toTree, toMembers_eq_map, Tree.depth, Tree.depth]
    refine Nat.succ_le_succ (membersDepth_le ?_)
    intro u hu
    obtain ⟨m, hm, rfl⟩ := List.mem_map.mp hu
    obtain ⟨member, hmember, -, hread⟩ :=
      exists_of_forall₂_right hvs ((mem_insertMembers hm).resolve_left List.not_mem_nil)
    exact Nat.le_trans (ih member hmember hread) (depth_le_membersDepth hmember)

/-! ## What becomes of a document -/

/-- The document `t` is `t'` after it was read as data and written from it. -/
def Becomes (t t' : Tree) : Prop :=
  ∃ v, Value.ofTree t = .ok v ∧ v.toTree = t'

theorem Value.Storable.becomes {v : Value} (h : v.Storable) : Becomes v.toTree v.toTree :=
  ⟨v, ofTree_toTree h, rfl⟩

theorem becomes_null : Becomes .null .null :=
  ⟨.null, rfl, rfl⟩

theorem becomes_text (s : String) : Becomes (.text s) (.text s) :=
  (Value.Storable.string s).becomes

theorem becomes_int {n : Int} {x : Binary64} (h : Binary64.read (signedDecimal n) = .number x) :
    Becomes (.int n) (.real x) := by
  refine ⟨.number x, ?_, rfl⟩
  rw [Tree.int, Value.ofTree, h]

theorem becomes_array {ts ts' : List Tree} (h : List.Forall₂ Becomes ts ts') :
    Becomes (.array ts) (.array ts') := by
  obtain ⟨vs, hread, hwrite⟩ : ∃ vs, List.Forall₂ (fun t v => Value.ofTree t = .ok v) ts vs ∧
      vs.map Value.toTree = ts' := by
    induction h with
    | nil => exact ⟨[], .nil, rfl⟩
    | cons hhead _ ih =>
      obtain ⟨v, hread, rfl⟩ := hhead
      obtain ⟨vs, hreads, rfl⟩ := ih
      exact ⟨v :: vs, .cons hread hreads, rfl⟩
  refine ⟨.array vs, ofTree_array_eq_ok_iff.mpr ⟨vs, hread, rfl⟩, ?_⟩
  rw [Value.toTree, toItems_eq_map, hwrite]

theorem becomes_texts (items : List String) : Becomes (.texts items) (.texts items) := by
  refine becomes_array ?_
  rw [List.forall₂_same]
  intro t ht
  obtain ⟨s, -, rfl⟩ := List.mem_map.mp ht
  exact becomes_text s

/-- What becomes of the members of a record, each by itself. -/
def MembersBecome (members members' : List (String × Tree)) : Prop :=
  List.Forall₂ (fun m m' => m.1 = m'.1 ∧ Becomes m.2 m'.2) members members'

theorem MembersBecome.map_fst {members members' : List (String × Tree)}
    (h : MembersBecome members members') : members.map Prod.fst = members'.map Prod.fst :=
  map_eq_map_of_forall₂ h fun _ _ hm => hm.1

/-- Members that stay as they are. -/
theorem membersBecome_self {members : List (String × Tree)} (h : ∀ m ∈ members, Becomes m.2 m.2) :
    MembersBecome members members :=
  List.forall₂_same.mpr fun m hm => ⟨rfl, h m hm⟩

theorem membersBecome_single {key : String} {t t' : Tree} (h : Becomes t t') :
    MembersBecome [(key, t)] [(key, t')] :=
  .cons ⟨rfl, h⟩ .nil

theorem MembersBecome.append {front front' back back' : List (String × Tree)}
    (hfront : MembersBecome front front') (hback : MembersBecome back back') :
    MembersBecome (front ++ back) (front' ++ back') :=
  List.rel_append hfront hback

/-- The members of a record are sorted by their keys. -/
theorem becomes_record {members members' : List (String × Tree)}
    (hkeys : (members.map Prod.fst).Nodup) (h : MembersBecome members members') :
    ∃ sorted, sorted.Perm members' ∧ Becomes (.record members) (.record sorted) := by
  obtain ⟨vs, hread, hwrite⟩ : ∃ vs, List.Forall₂ MemberHolds
      (members.map (fun m => (escape .plain m.1.toList, m.2))) vs ∧
      vs.map (fun m => (m.1, m.2.toTree)) = members' := by
    clear hkeys
    induction h with
    | nil => exact ⟨[], .nil, rfl⟩
    | @cons m m' _ _ hhead _ ih =>
      obtain ⟨key, t⟩ := m
      obtain ⟨key', t'⟩ := m'
      obtain ⟨rfl, v, hread, rfl⟩ := hhead
      obtain ⟨vs, hreads, rfl⟩ := ih
      refine ⟨(key, v) :: vs, .cons ⟨?_, hread⟩ hreads, rfl⟩
      rw [unescape_escape, String.ofList_toList]
  have hvs : (vs.map Prod.fst).Nodup := by
    rw [h.map_fst, ← hwrite, List.map_map] at hkeys
    exact hkeys
  refine ⟨(insertMembers [] vs).map (fun m => (m.1, m.2.toTree)), ?_, .object (insertMembers [] vs),
    ofTree_object_eq_ok_iff.mpr ⟨vs, hread, rfl⟩, ?_⟩
  · rw [← hwrite]
    exact (insertMembers_perm hvs).map _
  · rw [Value.toTree, toMembers_eq_map, Tree.record, List.map_map]
    rfl

/-! ### What becomes of the parts of a document -/

theorem Becomes.unique {t u u' : Tree} (h : Becomes t u) (h' : Becomes t u') : u = u' := by
  obtain ⟨v, hread, rfl⟩ := h
  obtain ⟨v', hread', rfl⟩ := h'
  rw [Except.ok.inj (hread.symm.trans hread')]

theorem exists_of_becomes_array {ts : List Tree} {t' : Tree} (h : Becomes (.array ts) t') :
    ∃ ts', t' = .array ts' ∧ List.Forall₂ Becomes ts ts' := by
  obtain ⟨v, hread, rfl⟩ := h
  obtain ⟨vs, hvs, rfl⟩ := ofTree_array_eq_ok_iff.mp hread
  refine ⟨vs.map Value.toTree, ?_, ?_⟩
  · rw [Value.toTree, toItems_eq_map]
  · rw [List.forall₂_map_right_iff]
    exact hvs.imp fun t v h => ⟨v, h, rfl⟩

/-- Every member of a record is found again under its key. -/
theorem exists_of_becomes_record {members : List (String × Tree)} {t' : Tree}
    (hkeys : (members.map Prod.fst).Nodup) (h : Becomes (.record members) t') :
    ∃ sorted, t' = .record sorted ∧
      ∀ m ∈ members, ∃ value, Becomes m.2 value ∧ (m.1, value) ∈ sorted := by
  have hmembers : ∃ members', MembersBecome members members' := by
    obtain ⟨v, hread, -⟩ := h
    obtain ⟨vs, hvs, -⟩ := ofTree_object_eq_ok_iff.mp hread
    rw [List.forall₂_map_left_iff] at hvs
    refine ⟨vs.map fun m => (m.1, m.2.toTree), List.forall₂_map_right_iff.mpr (hvs.imp ?_)⟩
    rintro m v ⟨hkey, hvalue⟩
    rw [unescape_escape, String.ofList_toList] at hkey
    exact ⟨hkey, v.2, hvalue, rfl⟩
  obtain ⟨members', hmembers⟩ := hmembers
  obtain ⟨sorted, hperm, hsorted⟩ := becomes_record hkeys hmembers
  refine ⟨sorted, h.unique hsorted, ?_⟩
  intro m hm
  obtain ⟨m', hm', hkey, hvalue⟩ := exists_of_forall₂_right hmembers.flip hm
  refine ⟨m'.2, hvalue, hperm.mem_iff.mpr ?_⟩
  rw [hkey]
  exact hm'

end FlowScript.Json
