import FlowScript.Proofs.Json.Sorting
import FlowScript.Yaml.Printer
import Mathlib.Data.List.Nodup
import Mathlib.Data.List.Perm.Subperm

/-!
# Values that come back from YAML

A value that was written as YAML comes back as data: lists item by item, mappings key by key, and
numbers as integers or decimals that print the same. From such data JSON makes the document that is
written for the value.

## Main definitions

- `Value.comesBackAs` — data is what a value should be read back as
- `Yaml.isOrdered` — the members of a value stand in the order in which they are written

## Main results

- `toTree_of_comesBackAs` — the JSON form of data that a value comes back as
- `ordered_eq_self` — a value whose members stand in order is written as it stands
-/

namespace FlowScript

open Json Text

/-! ## Data that a value comes back as -/

mutual

/-- The data is the value: a mapping has the members of the object under their keys, and a number is
told by how it prints. -/
def Json.Value.comesBackAs : Value → Yaml.Data → Bool
  | .null, .atom .null => true
  | .bool b, .atom (.bool c) => b == c
  | .number x, .atom (.float y) => x == y
  | .number x, .atom (.int n) => NumberLayout.document.render x == signedDecimal n
  | .string s, .atom (.text t) => s == t
  | .array vs, .list ds => Json.itemsComeBackAs vs ds
  | .object members, .map entries =>
    entries.length == members.length && Json.membersComeBackAs members entries
  | _, _ => false

/-- The data of the items of a list. -/
def Json.itemsComeBackAs : List Value → List Yaml.Data → Bool
  | [], [] => true
  | v :: vs, d :: ds => v.comesBackAs d && Json.itemsComeBackAs vs ds
  | _, _ => false

/-- Every member stands among the entries under its key. -/
def Json.membersComeBackAs : List (String × Value) → List (String × Yaml.Data) → Bool
  | [], _ => true
  | (key, v) :: rest, entries =>
    (match entries.lookup key with
      | some d => v.comesBackAs d
      | none => false) && Json.membersComeBackAs rest entries

end

namespace Yaml

theorem itemsComeBackAs_iff {vs : List Value} {ds : List Data} :
    itemsComeBackAs vs ds = true ↔ List.Forall₂ (fun v d => v.comesBackAs d = true) vs ds := by
  induction vs generalizing ds with
  | nil => cases ds <;> simp [itemsComeBackAs]
  | cons v rest ih => cases ds <;> simp [itemsComeBackAs, ih]

theorem membersComeBackAs_iff {members : List (String × Value)} {entries : List (String × Data)} :
    membersComeBackAs members entries = true ↔
      ∀ m ∈ members, ∃ d, entries.lookup m.1 = some d ∧ m.2.comesBackAs d = true := by
  induction members with
  | nil => simp [membersComeBackAs]
  | cons m rest ih =>
    obtain ⟨key, v⟩ := m
    rw [membersComeBackAs, Bool.and_eq_true, ih, List.forall_mem_cons]
    refine and_congr_left' ?_
    cases entries.lookup key <;> simp

/-- Entries in which every member of as many is found by its key are the members in some order. -/
theorem exists_perm_of_lookup {α β : Type} {R : α → β → Prop} {members : List (String × α)}
    {entries : List (String × β)} (hkeys : (members.map Prod.fst).Nodup)
    (hlength : entries.length = members.length)
    (h : ∀ m ∈ members, ∃ b, entries.lookup m.1 = some b ∧ R m.2 b) :
    ∃ listed, listed.Perm entries ∧
      List.Forall₂ (fun m e => m.1 = e.1 ∧ R m.2 e.2) members listed := by
  obtain ⟨listed, hlisted, hmem⟩ : ∃ listed : List (String × β),
      List.Forall₂ (fun m e => m.1 = e.1 ∧ R m.2 e.2) members listed ∧ ∀ e ∈ listed, e ∈ entries := by
    clear hkeys hlength
    induction members with
    | nil => exact ⟨[], .nil, by simp⟩
    | cons m rest ih =>
      obtain ⟨b, hb, hrel⟩ := h m List.mem_cons_self
      obtain ⟨listed, hlisted, hmem⟩ := ih fun m hm => h m (List.mem_cons_of_mem _ hm)
      obtain ⟨front, back, hentries, -⟩ := List.lookup_eq_some_iff.mp hb
      refine ⟨(m.1, b) :: listed, .cons ⟨rfl, hrel⟩ hlisted, List.forall_mem_cons.mpr ⟨?_, hmem⟩⟩
      rw [hentries]
      exact List.mem_append_right _ List.mem_cons_self
  have hsame : members.map Prod.fst = listed.map Prod.fst :=
    map_eq_map_of_forall₂ hlisted fun _ _ hm => hm.1
  have hnodup : listed.Nodup := List.Nodup.of_map Prod.fst (hsame ▸ hkeys)
  have hle : entries.length ≤ listed.length :=
    Nat.le_of_eq (hlength.trans hlisted.length_eq)
  exact ⟨listed, (hnodup.subperm hmem).perm_of_length_le hle, hlisted⟩

/-! ## The JSON form of data -/

theorem treesOf_eq {ds : List Data} {ts : List Tree}
    (h : List.Forall₂ (fun d t => d.toTree = .ok t) ds ts) : treesOf ds = .ok ts := by
  induction h with
  | nil => rfl
  | cons hhead _ ih =>
    rw [treesOf, hhead, ih]
    rfl

theorem membersOf_eq {entries : List (String × Data)} {members : List (String × Tree)}
    (h : List.Forall₂ (fun e m => e.1 = m.1 ∧ e.2.toTree = .ok m.2) entries members) :
    membersOf entries = .ok members := by
  induction h with
  | nil => rfl
  | @cons e m _ _ hhead _ ih =>
    obtain ⟨key, d⟩ := e
    obtain ⟨key', t⟩ := m
    obtain ⟨rfl, hd⟩ := hhead
    rw [membersOf, hd, ih]
    rfl

theorem exists_of_array_comesBackAs {vs : List Value} {d : Data}
    (h : (Value.array vs).comesBackAs d = true) :
    ∃ ds, d = .list ds ∧ List.Forall₂ (fun v d => v.comesBackAs d = true) vs ds := by
  cases d with
  | list ds => exact ⟨ds, rfl, itemsComeBackAs_iff.mp (by simpa [Value.comesBackAs] using h)⟩
  | _ => simp [Value.comesBackAs] at h

theorem exists_of_object_comesBackAs {members : List (String × Value)} {d : Data}
    (hkeys : (members.map Prod.fst).Nodup) (h : (Value.object members).comesBackAs d = true) :
    ∃ entries listed, d = .map entries ∧ listed.Perm entries ∧
      List.Forall₂ (fun m e => m.1 = e.1 ∧ m.2.comesBackAs e.2 = true) members listed := by
  cases d with
  | map entries =>
    simp only [Value.comesBackAs, Bool.and_eq_true, beq_iff_eq] at h
    obtain ⟨listed, hperm, hlisted⟩ :=
      exists_perm_of_lookup (R := fun v d => v.comesBackAs d = true) hkeys h.1
        (membersComeBackAs_iff.mp h.2)
    exact ⟨entries, listed, rfl, hperm, hlisted⟩
  | _ => simp [Value.comesBackAs] at h

/-- The JSON form of data that a value comes back as is the written form of the value. -/
theorem toTree_of_comesBackAs {v : Value} (hsorted : v.Sorted) {d : Data}
    (h : v.comesBackAs d = true) : d.toTree = .ok v.toTree := by
  induction hsorted generalizing d with
  | null =>
    cases d with
    | atom a => cases a <;> simp_all [Value.comesBackAs, Data.toTree, Atom.toTree, Value.toTree]
    | _ => simp [Value.comesBackAs] at h
  | bool b =>
    cases d with
    | atom a => cases a <;> simp_all [Value.comesBackAs, Data.toTree, Atom.toTree, Value.toTree]
    | _ => simp [Value.comesBackAs] at h
  | number x =>
    cases d with
    | atom a =>
      cases a <;>
        simp_all [Value.comesBackAs, Data.toTree, Atom.toTree, Value.toTree, Tree.real, Tree.int]
    | _ => simp [Value.comesBackAs] at h
  | string s =>
    cases d with
    | atom a => cases a <;> simp_all [Value.comesBackAs, Data.toTree, Atom.toTree, Value.toTree]
    | _ => simp [Value.comesBackAs] at h
  | @array vs _ ih =>
    obtain ⟨ds, rfl, hds⟩ := exists_of_array_comesBackAs h
    have htrees : treesOf ds = .ok (vs.map Value.toTree) := by
      refine treesOf_eq (List.forall₂_map_right_iff.mpr (List.Forall₂.flip ?_))
      exact forall₂_imp_of_mem hds fun v hv d hd => ih v hv hd
    rw [Data.toTree, htrees, Value.toTree, toItems_eq_map]
    rfl
  | @object members hsorted _ ih =>
    obtain ⟨entries, listed, rfl, hperm, hlisted⟩ :=
      exists_of_object_comesBackAs (nodup_of_sorted hsorted) h
    -- the trees of the entries stand in the order of the entries, and are sorted then
    have hlistedTrees : List.Forall₂ (fun e m => e.1 = m.1 ∧ e.2.toTree = .ok m.2) listed
        (members.map fun m => (m.1, m.2.toTree)) := by
      refine List.forall₂_map_right_iff.mpr (List.Forall₂.flip ?_)
      exact forall₂_imp_of_mem hlisted fun m hm e he => ⟨he.1.symm, ih m hm he.2⟩
    obtain ⟨trees, htrees, htreesPerm⟩ := List.perm_comp_forall₂ hperm.symm hlistedTrees
    have hsortedTrees : (members.map fun m => (m.1, m.2.toTree)).Pairwise (fun a b => a.1 < b.1) :=
      List.pairwise_map.mpr hsorted
    have hfound : insertMembers [] trees = members.map fun m => (m.1, m.2.toTree) :=
      insertMembers_eq_of_perm hsortedTrees htreesPerm
    rw [Data.toTree, membersOf_eq htrees, Value.toTree, toMembers_eq_map]
    show Except.ok (Tree.record (insertMembers [] trees)) = _
    rw [hfound, Tree.record, List.map_map]
    rfl

/-! ## The order of members -/

mutual

/-- The members of all objects stand in the order in which they are written. -/
def isOrdered : Value → Bool
  | .array items => areItemsOrdered items
  | .object members =>
    decide (members.Pairwise fun x y => (!keyBefore [] y.1.toList x.1.toList) = true)
      && areMembersOrdered members
  | _ => true

def areItemsOrdered : List Value → Bool
  | [] => true
  | v :: rest => isOrdered v && areItemsOrdered rest

def areMembersOrdered : List (String × Value) → Bool
  | [] => true
  | (_, v) :: rest => isOrdered v && areMembersOrdered rest

end

mutual

theorem ordered_eq_self : ∀ {v : Value}, isOrdered v = true → ordered v = v
  | .null, _ => rfl
  | .bool _, _ => rfl
  | .number _, _ => rfl
  | .string _, _ => rfl
  | .array items, h => by
    rw [isOrdered] at h
    rw [ordered, orderedItems_eq_self h]
  | .object members, h => by
    rw [isOrdered, Bool.and_eq_true] at h
    rw [ordered, orderedMembers_eq_self h.2, sortedMembers,
      List.mergeSort_of_pairwise (of_decide_eq_true h.1)]

theorem orderedItems_eq_self : ∀ {items : List Value}, areItemsOrdered items = true →
    orderedItems items = items
  | [], _ => rfl
  | v :: rest, h => by
    rw [areItemsOrdered, Bool.and_eq_true] at h
    rw [orderedItems, ordered_eq_self h.1, orderedItems_eq_self h.2]

theorem orderedMembers_eq_self : ∀ {members : List (String × Value)},
    areMembersOrdered members = true → orderedMembers members = members
  | [], _ => rfl
  | (key, v) :: rest, h => by
    rw [areMembersOrdered, Bool.and_eq_true] at h
    rw [orderedMembers, ordered_eq_self h.1, orderedMembers_eq_self h.2]

end

end Yaml

end FlowScript
