import FlowScript.Proofs.Script.Names
import FlowScript.Proofs.Script.Plan

/-!
# Names that nodes ask for

A table of names that grows as nodes ask for theirs: a node that has a name keeps it, and another
one gets the first candidate for its id that no node has. Whoever asks when, the names in the table
differ, and none of them changes any more. When all nodes of a flow have asked in flow order, these
are the names of the flow, known from the ids of the nodes alone.

## Main definitions

- `Search` — the candidates are tried one after the other, without a bound
- `NameTable.ask` — a node asks for its name
- `NameTable.Sound` — what is known of the names after some nodes have asked

## Main results

- `search_freshName` — the search ends
- `NameTable.Sound.askAll` — whatever has been asked
- `NameTable.lookup_inOrder` — the names of a flow
- `names_settled` — all of this, for every node of every flow
-/

namespace FlowScript.Script

/-- The candidates for a base are tried one after the other, from a number on, until one is not
taken. -/
inductive Search (base : String) (taken : List String) : Nat → String → Prop
  | free {k : Nat} (h : candidate base k ∉ taken) : Search base taken k (candidate base k)
  | next {k : Nat} {name : String} (h : candidate base k ∈ taken)
      (more : Search base taken (k + 1) name) : Search base taken k name

theorem search_of_find? {base name : String} {taken : List String} (count start : Nat)
    (h : ((List.range' start count).map (candidate base)).find? (fun c => !taken.contains c) =
      some name) : Search base taken start name := by
  induction count generalizing start with
  | zero => cases h
  | succ count ih =>
    rw [List.range'_succ, List.map_cons] at h
    by_cases hstart : candidate base start ∈ taken
    · rw [List.find?_cons_of_neg (by simpa using hstart)] at h
      exact .next hstart (ih (start + 1) h)
    · rw [List.find?_cons_of_pos (by simpa using hstart)] at h
      obtain rfl := Option.some.inj h
      exact .free hstart

/-- The search ends, and with the fresh name: one of the first candidates is not taken. -/
theorem search_freshName (base : String) (taken : List String) :
    Search base taken 0 (freshName base taken) := by
  have hfound := find?_candidate base taken
  rw [List.range_eq_range'] at hfound
  exact search_of_find? _ _ hfound

/-- A candidate starts with its base. -/
theorem prefix_candidate (base : String) (k : Nat) :
    base.toList <+: (candidate base k).toList := by
  unfold candidate
  split
  · exact List.prefix_refl _
  · rw [String.toList_append, String.toList_append, List.append_assoc]
    exact List.prefix_append _ _

theorem prefix_freshName (base : String) (taken : List String) :
    base.toList <+: (freshName base taken).toList := by
  obtain ⟨k, hk⟩ := (freshName_spec base taken).1
  rw [hk]
  exact prefix_candidate base k

/-- The names that have been handed out, by the places of the nodes, the latest first. -/
abbrev NameTable := List (Nat × String)

namespace NameTable

variable {t : NameTable} {asks : List (Nat × String)} {i j : Nat} {id name : String}

/-- The names that are taken. -/
def taken (t : NameTable) : List String :=
  t.map (·.2)

/-- The node at a place asks for its name: it has one, or gets a fresh one for its id. -/
def ask (t : NameTable) (place : Nat) (id : String) : NameTable :=
  if (t.lookup place).isSome then t else (place, freshName (sanitize id) t.taken) :: t

/-- Nodes ask one after the other, each with its place and its id. -/
def askAll (t : NameTable) (asks : List (Nat × String)) : NameTable :=
  asks.foldl (fun t a => t.ask a.1 a.2) t

theorem askAll_append (t : NameTable) (asks more : List (Nat × String)) :
    t.askAll (asks ++ more) = (t.askAll asks).askAll more :=
  List.foldl_append

theorem mem_taken_of_lookup (h : t.lookup i = some name) : name ∈ t.taken := by
  obtain ⟨before, after, rfl, -⟩ := List.lookup_eq_some_iff.mp h
  simp [taken]

theorem ask_of_known (h : t.lookup i = some name) (id : String) : t.ask i id = t := by
  simp [ask, h]

theorem ask_of_new (h : t.lookup i = none) (id : String) :
    t.ask i id = (i, freshName (sanitize id) t.taken) :: t := by
  simp [ask, h]

/-- The name at a place is the latest one, or it has been there before. -/
theorem lookup_cons_iff {fresh : String} :
    List.lookup i ((j, fresh) :: t) = some name ↔
      (i = j ∧ name = fresh) ∨ (i ≠ j ∧ t.lookup i = some name) := by
  by_cases h : i = j
  · subst h
    simp [eq_comm]
  · have hne : (i == j) = false := by simpa using h
    simp [List.lookup_cons, hne, h]

/-- A name that has been handed out is not changed. -/
theorem lookup_ask (h : t.lookup i = some name) (j : Nat) (id : String) :
    (t.ask j id).lookup i = some name := by
  cases hj : t.lookup j with
  | some other => rwa [ask_of_known hj]
  | none =>
    rw [ask_of_new hj, lookup_cons_iff]
    refine .inr ⟨?_, h⟩
    rintro rfl
    rw [h] at hj
    cases hj

theorem lookup_askAll (h : t.lookup i = some name) (asks : List (Nat × String)) :
    (t.askAll asks).lookup i = some name := by
  induction asks generalizing t with
  | nil => exact h
  | cons a asks ih => exact ih (lookup_ask h a.1 a.2)

/-- What is known of a table when the nodes in `asks` have asked: each of them has a name, no two of
them have the same, and a name is a word that starts with the sanitized id of its node. -/
structure Sound (asks : List (Nat × String)) (t : NameTable) : Prop where
  answered : ∀ a ∈ asks, ∃ name, t.lookup a.1 = some name
  apart : ∀ i j name, t.lookup i = some name → t.lookup j = some name → i = j
  named : ∀ i name, t.lookup i = some name →
    ∃ id, (i, id) ∈ asks ∧ IsWord name ∧ (sanitize id).toList <+: name.toList

theorem Sound.empty : Sound [] [] :=
  ⟨by simp, by simp, by simp⟩

/-- Who has asked has a name. -/
theorem exists_lookup_ask (t : NameTable) (i : Nat) (id : String) :
    ∃ name, (t.ask i id).lookup i = some name := by
  cases hi : t.lookup i with
  | some name => exact ⟨name, lookup_ask hi i id⟩
  | none => exact ⟨_, by rw [ask_of_new hi, lookup_cons_iff]; exact .inl ⟨rfl, rfl⟩⟩

/-- One more node asks. -/
theorem Sound.ask (h : Sound asks t) (j : Nat) (id : String) :
    Sound (asks ++ [(j, id)]) (t.ask j id) := by
  have hanswered : ∀ a ∈ asks ++ [(j, id)], ∃ name, (t.ask j id).lookup a.1 = some name := by
    rw [List.forall_mem_append, List.forall_mem_singleton]
    refine ⟨fun a ha => ?_, exists_lookup_ask t j id⟩
    obtain ⟨name, hname⟩ := h.answered a ha
    exact ⟨name, lookup_ask hname j id⟩
  have hearlier : ∀ i name, t.lookup i = some name →
      ∃ id', (i, id') ∈ asks ++ [(j, id)] ∧ IsWord name ∧
        (sanitize id').toList <+: name.toList := by
    intro i name hi
    obtain ⟨id', hid, hword⟩ := h.named i name hi
    exact ⟨id', List.mem_append_left _ hid, hword⟩
  cases hj : t.lookup j with
  | some other =>
    rw [ask_of_known hj] at hanswered ⊢
    exact ⟨hanswered, h.apart, hearlier⟩
  | none =>
    have hfresh := freshName_not_mem (sanitize id) t.taken
    rw [ask_of_new hj] at hanswered ⊢
    refine ⟨hanswered, ?_, ?_⟩
    · -- the fresh name is not in the table, so no other place has it
      intro i k name hi hk
      rcases lookup_cons_iff.mp hi with ⟨hij, rfl⟩ | ⟨-, hi'⟩ <;>
        rcases lookup_cons_iff.mp hk with ⟨hkj, heq⟩ | ⟨-, hk'⟩
      · rw [hij, hkj]
      · exact absurd (mem_taken_of_lookup hk') hfresh
      · exact absurd (heq ▸ mem_taken_of_lookup hi') hfresh
      · exact h.apart i k name hi' hk'
    · intro i name hi
      rcases lookup_cons_iff.mp hi with ⟨rfl, rfl⟩ | ⟨-, hi⟩
      · exact ⟨id, by simp, isWord_freshName (isWord_sanitize id) _, prefix_freshName _ _⟩
      · exact hearlier i name hi

theorem Sound.askAll {done : List (Nat × String)} (h : Sound done t)
    (asks : List (Nat × String)) : Sound (done ++ asks) (t.askAll asks) := by
  induction asks generalizing done t with
  | nil => simpa [NameTable.askAll] using h
  | cons a asks ih =>
    have hmore := ih (h.ask a.1 a.2)
    rwa [List.append_assoc] at hmore

/-- The table when nobody has asked. -/
def empty : NameTable := []

theorem sound_askAll_empty (asks : List (Nat × String)) : Sound asks (empty.askAll asks) :=
  Sound.empty.askAll asks

/-- The nodes with the given ids, from the given place on, ask in their order. -/
def inOrder : Nat → List String → List (Nat × String)
  | _, [] => []
  | place, id :: rest => (place, id) :: inOrder (place + 1) rest

/-- When nobody has asked for the places from `start` on, nodes that ask in order get the names that
are handed out one after the other, and whoever asks afterwards changes none of them. -/
theorem lookup_inOrder (ids : List String) (start : Nat)
    (hnew : ∀ i, start ≤ i → t.lookup i = none) (more : List (Nat × String)) {k : Nat}
    (h : (namesFor t.taken ids)[k]? = some name) :
    (t.askAll (inOrder start ids ++ more)).lookup (start + k) = some name := by
  induction ids generalizing t start k with
  | nil => simp [namesFor] at h
  | cons id rest ih =>
    have hask := ask_of_new (hnew start le_rfl) id
    have hnames : namesFor t.taken (id :: rest) =
      freshName (sanitize id) t.taken :: namesFor (t.ask start id).taken rest := by
      rw [hask]
      rfl
    rw [hnames] at h
    show ((t.ask start id).askAll (inOrder (start + 1) rest ++ more)).lookup (start + k) = some name
    cases k with
    | zero =>
      obtain rfl : freshName (sanitize id) t.taken = name := by simpa using h
      refine lookup_askAll ?_ _
      rw [hask, lookup_cons_iff]
      exact .inl ⟨rfl, rfl⟩
    | succ k =>
      rw [List.getElem?_cons_succ] at h
      have hplace : start + (k + 1) = start + 1 + k := by omega
      rw [hplace]
      refine ih (start + 1) (fun i hi => ?_) h
      rw [hask, Option.eq_none_iff_forall_ne_some]
      intro other hother
      rcases lookup_cons_iff.mp hother with ⟨rfl, -⟩ | ⟨-, hother⟩
      · omega
      · rw [hnew i (by omega)] at hother
        cases hother

theorem mem_inOrder {ids : List String} {start : Nat} (h : (i, id) ∈ inOrder start ids) :
    ∃ k, i = start + k ∧ ids[k]? = some id := by
  induction ids generalizing start with
  | nil => cases h
  | cons first rest ih =>
    rcases List.mem_cons.mp h with heq | h
    · obtain ⟨rfl, rfl⟩ := Prod.mk.inj heq
      exact ⟨0, rfl, rfl⟩
    · obtain ⟨k, rfl, hk⟩ := ih h
      exact ⟨k + 1, by omega, hk⟩

end NameTable

/-- In a plan, every node has the name of its place. -/
theorem Plan.name_at_place {f : Flow} {p : Placed} (hp : p ∈ (Plan.ofFlow f).nodes) :
    (nodeNames f.liveNodes)[p.place]? = some p.name := by
  have hlt : p.place < (nodeNames f.liveNodes).length := by
    rw [nodeNames_length]
    exact (List.getElem?_eq_some_iff.mp (Plan.node_at hp)).1
  rw [Plan.name_at hp, List.getD_eq_getElem?_getD, List.getElem?_eq_getElem hlt, Option.getD_some]

/-- The names of nodes are settled. The search for a free name ends. Whoever asks, and in whatever
order, gets a name; no two nodes have the same one; it is a word that starts with the sanitized id
of its node; and it stays the same, however often it is asked for. When the nodes of a flow have
asked in flow order, the name of each is the one it has in the plan of every flow with the same node
ids in the same order, whatever its connections and positions are, and of no other node there. -/
theorem names_settled (f : Flow) :
    (∀ base taken, Search base taken 0 (freshName base taken)) ∧
    (∀ asks, NameTable.Sound asks (NameTable.empty.askAll asks)) ∧
    (∀ asks more i name, (NameTable.empty.askAll asks).lookup i = some name →
      (NameTable.empty.askAll (asks ++ more)).lookup i = some name) ∧
    ∀ i n, f.liveNodes[i]? = some n → ∃ name,
      IsWord name ∧ (sanitize n.id).toList <+: name.toList ∧
      (∀ more, (NameTable.empty.askAll
        (NameTable.inOrder 0 (f.liveNodes.map (·.id)) ++ more)).lookup i = some name) ∧
      ∀ g : Flow, g.liveNodes.map (·.id) = f.liveNodes.map (·.id) →
        ∀ p ∈ (Plan.ofFlow g).nodes, p.name = name ↔ p.place = i := by
  refine ⟨search_freshName, NameTable.sound_askAll_empty, ?_, ?_⟩
  · intro asks more i name h
    rw [NameTable.askAll_append]
    exact NameTable.lookup_askAll h more
  intro i n hn
  have hi : i < (nodeNames f.liveNodes).length := by
    rw [nodeNames_length]
    exact (List.getElem?_eq_some_iff.mp hn).1
  have hname := List.getElem?_eq_getElem hi
  have hlookup : ∀ more, (NameTable.empty.askAll
      (NameTable.inOrder 0 (f.liveNodes.map (·.id)) ++ more)).lookup i =
        some (nodeNames f.liveNodes)[i] := by
    intro more
    have hasked := NameTable.lookup_inOrder (t := NameTable.empty) (f.liveNodes.map (·.id)) 0
      (fun _ _ => rfl) more hname
    rwa [Nat.zero_add] at hasked
  obtain ⟨id, hid, hword, hprefix⟩ :=
    (NameTable.sound_askAll_empty _).named i _ (List.append_nil _ ▸ hlookup [])
  obtain ⟨k, rfl, hk⟩ := NameTable.mem_inOrder hid
  refine ⟨_, hword, ?_, hlookup, ?_⟩
  · rw [Nat.zero_add] at hn
    rw [List.getElem?_map, hn] at hk
    obtain rfl := Option.some.inj hk
    exact hprefix
  · intro g hg p hp
    have hp := Plan.name_at_place hp
    have hnames : nodeNames g.liveNodes = nodeNames f.liveNodes := by rw [nodeNames, hg, nodeNames]
    rw [hnames] at hp
    constructor
    · intro heq
      rw [heq, ← hname] at hp
      exact (List.getElem?_inj hi (nodeNames_nodup _)).mp hp.symm |>.symm
    · intro heq
      rw [heq, hname] at hp
      exact (Option.some.inj hp).symm

end FlowScript.Script
