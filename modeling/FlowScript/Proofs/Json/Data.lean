import FlowScript.Proofs.Json.Trees

/-!
# Data and its written form

Data is written as a well-formed document and read back from it, however special characters are
spelled there. Objects keep their members because these are sorted already.

## Main definitions

- `ReadsBack` — a number comes back from its printed form
- `Value.Sorted` — sorted members throughout
- `Value.Storable` — sorted members and numbers that come back, throughout

## Main results

- `ofTree_respelled` — the spelling of special characters makes no difference to the data
- `ofTree_toTree` — data is read back from its written form
-/

namespace FlowScript.Json

open Text

/-! ## The parts of documents -/

section Parts

variable (markup : Markup)

theorem wellFormed_text (s : String) : (Tree.text s).WellFormed :=
  .string (isBody_escape .plain s.toList)

theorem wellFormed_int (n : Int) : (Tree.int n).WellFormed :=
  .number (isNumber_signedDecimal n)

theorem wellFormed_real (x : Binary64) : (Tree.real x).WellFormed :=
  .number (isNumber_render x)

theorem wellFormed_texts (items : List String) : (Tree.texts items).WellFormed := by
  refine .array ?_
  intro t ht
  obtain ⟨s, -, rfl⟩ := List.mem_map.mp ht
  exact wellFormed_text s

theorem wellFormed_record {members : List (String × Tree)} (h : ∀ m ∈ members, m.2.WellFormed) :
    (Tree.record members).WellFormed := by
  refine .object ?_ ?_
  · intro m hm
    obtain ⟨member, -, rfl⟩ := List.mem_map.mp hm
    exact isBody_escape .plain member.1.toList
  · intro m hm
    obtain ⟨member, hmember, rfl⟩ := List.mem_map.mp hm
    exact h member hmember

/-- The text of a respelled string. -/
theorem unescape_respell_escape (s : String) :
    String.ofList (unescape (respell markup (escape .plain s.toList))) = s := by
  rw [unescape_respell (isBody_escape .plain s.toList), unescape_escape, String.ofList_toList]

end Parts

/-! ## Spelling makes no difference -/

theorem ofTree_respelled {t : Tree} (h : t.WellFormed) (markup : Markup) :
    Value.ofTree (t.respelled markup) = Value.ofTree t := by
  induction h with
  | null => rfl
  | bool b => rfl
  | number h => rfl
  | string h => rw [Tree.respelled, Value.ofTree, Value.ofTree, unescape_respell h]
  | @array items hwf ih =>
    clear hwf
    have hitems : ofItems (respelledItems markup items) = ofItems items := by
      induction items with
      | nil => rfl
      | cons item rest ihr =>
        rw [respelledItems, ofItems, ofItems, ih item List.mem_cons_self,
          ihr (fun t ht => ih t (List.mem_cons_of_mem item ht))]
    rw [Tree.respelled, Value.ofTree, Value.ofTree, hitems]
  | @object members hkeys hwf ih =>
    clear hwf
    have hmembers : ∀ done, ofMembers done (respelledMembers markup members) =
        ofMembers done members := by
      induction members with
      | nil => exact fun done => rfl
      | cons member rest ihr =>
        obtain ⟨key, value⟩ := member
        intro done
        have hrest := ihr (fun m hm => hkeys m (List.mem_cons_of_mem _ hm))
          (fun m hm => ih m (List.mem_cons_of_mem _ hm))
        rw [respelledMembers, ofMembers, ofMembers, ih (key, value) List.mem_cons_self,
          unescape_respell (hkeys (key, value) List.mem_cons_self)]
        simp only [hrest]
    rw [Tree.respelled, Value.ofTree, Value.ofTree, hmembers]

/-! ## Writing data and reading it -/

/-- A number that comes back from its printed form. -/
def ReadsBack (x : Binary64) : Prop :=
  Binary64.read (NumberLayout.document.render x) = .number x

instance (x : Binary64) : Decidable (ReadsBack x) :=
  match h : Binary64.read (NumberLayout.document.render x) with
  | .number y => decidable_of_iff (y = x) (by simp [ReadsBack, h])
  | .malformed | .tooLarge => .isFalse (by simp [ReadsBack, h])

/-- Data in its normal form. -/
inductive Value.Sorted : Value → Prop
  | null : Sorted .null
  | bool (b : Bool) : Sorted (.bool b)
  | number (x : Binary64) : Sorted (.number x)
  | string (s : String) : Sorted (.string s)
  | array {items : List Value} (h : ∀ v ∈ items, Sorted v) : Sorted (.array items)
  | object {members : List (String × Value)} (hsorted : members.Pairwise (fun a b => a.1 < b.1))
      (h : ∀ m ∈ members, Sorted m.2) : Sorted (.object members)

/-- Data in its normal form, with numbers that come back from their printed form. -/
inductive Value.Storable : Value → Prop
  | null : Storable .null
  | bool (b : Bool) : Storable (.bool b)
  | number {x : Binary64} (h : ReadsBack x) : Storable (.number x)
  | string (s : String) : Storable (.string s)
  | array {items : List Value} (h : ∀ v ∈ items, Storable v) : Storable (.array items)
  | object {members : List (String × Value)} (hsorted : members.Pairwise (fun a b => a.1 < b.1))
      (h : ∀ m ∈ members, Storable m.2) : Storable (.object members)

theorem toItems_eq_map (items : List Value) : toItems items = items.map Value.toTree := by
  induction items with
  | nil => rfl
  | cons v rest ih => rw [toItems, ih, List.map_cons]

theorem toMembers_eq_map (members : List (String × Value)) :
    toMembers members = members.map (fun m => (escape .plain m.1.toList, m.2.toTree)) := by
  induction members with
  | nil => rfl
  | cons m rest ih => rw [toMembers, ih, List.map_cons]

mutual

theorem Value.wellFormed_toTree : ∀ v : Value, v.toTree.WellFormed
  | .null => .null
  | .bool b => .bool b
  | .number x => wellFormed_real x
  | .string s => wellFormed_text s
  | .array items => .array (wellFormed_toItems items)
  | .object members =>
    .object (fun m hm => (wellFormed_toMembers members m hm).1)
      fun m hm => (wellFormed_toMembers members m hm).2

theorem wellFormed_toItems : ∀ items : List Value, ∀ t ∈ toItems items, t.WellFormed
  | [], _, ht => by cases ht
  | v :: rest, t, ht => by
    rw [toItems] at ht
    rcases List.mem_cons.mp ht with rfl | ht
    · exact v.wellFormed_toTree
    · exact wellFormed_toItems rest t ht

theorem wellFormed_toMembers : ∀ members : List (String × Value),
    ∀ m ∈ toMembers members, IsBody m.1 ∧ m.2.WellFormed
  | [], _, hm => by cases hm
  | (key, v) :: rest, m, hm => by
    rw [toMembers] at hm
    rcases List.mem_cons.mp hm with rfl | hm
    · exact ⟨isBody_escape .plain key.toList, v.wellFormed_toTree⟩
    · exact wellFormed_toMembers rest m hm

end

/-- A key behind all keys goes to the end. -/
theorem insertMember_of_lt {α : Type} {key : String} {done : List (String × α)}
    (h : ∀ m ∈ done, m.1 < key) (value : α) :
    insertMember key value done = done ++ [(key, value)] := by
  induction done with
  | nil => rfl
  | cons m rest ih =>
    obtain ⟨k, v⟩ := m
    have hlt : k < key := h (k, v) List.mem_cons_self
    have hne : key ≠ k := by
      rintro rfl
      exact String.lt_irrefl key hlt
    rw [insertMember, if_neg (String.lt_asymm hlt), if_neg hne,
      ih (fun m hm => h m (List.mem_cons_of_mem _ hm)), List.cons_append]

theorem ofTree_toTree {v : Value} (h : v.Storable) : Value.ofTree v.toTree = .ok v := by
  induction h with
  | null => rfl
  | bool b => rfl
  | number h =>
    rw [Value.toTree, Tree.real, Value.ofTree, h]
  | string s =>
    rw [Value.toTree, Tree.text, Value.ofTree, unescape_escape, String.ofList_toList]
  | @array items h ih =>
    clear h
    have hitems : ofItems (toItems items) = .ok items := by
      induction items with
      | nil => rfl
      | cons v rest ihr =>
        rw [toItems, ofItems, ih v List.mem_cons_self,
          ihr (fun v hv => ih v (List.mem_cons_of_mem _ hv))]
    rw [Value.toTree, Value.ofTree, hitems]
    rfl
  | @object members hsorted h ih =>
    clear h
    -- the members read so far are the front of the sorted list
    have hmembers : ∀ done, (done ++ members).Pairwise (fun a b => a.1 < b.1) →
        ofMembers done (toMembers members) = .ok (done ++ members) := by
      clear hsorted
      induction members with
      | nil =>
        intro done _
        rw [List.append_nil]
        rfl
      | cons member rest ihr =>
        obtain ⟨key, value⟩ := member
        intro done hsorted
        have hvalue : Value.ofTree value.toTree = .ok value := ih (key, value) List.mem_cons_self
        have hlt : ∀ m ∈ done, m.1 < key := fun m hm =>
          (List.pairwise_append.mp hsorted).2.2 m hm (key, value) List.mem_cons_self
        have hrest := ihr (fun m hm => ih m (List.mem_cons_of_mem _ hm)) (done ++ [(key, value)])
          (by simpa using hsorted)
        rw [toMembers, ofMembers, hvalue, unescape_escape, String.ofList_toList]
        simp only [insertMember_of_lt hlt, hrest, List.append_assoc, List.singleton_append]
    rw [Value.toTree, Value.ofTree, hmembers [] (by simpa using hsorted)]
    rfl

end FlowScript.Json
