import FlowScript.Graph.Cycle
import FlowScript.Proofs.Graph.Path
import Mathlib.Data.List.Sort
import Mathlib.Tactic.Common

/-!
# The depth-first walk

The walk that closes groups of nodes, with the invariant that makes the groups right. At any moment
the nodes that are being visited form a path (`path`, the latest first); every open node can be
reached from the older ones and leads back to a node of the path, and a closed node only leads to
closed nodes. A group is closed when no edge leads from it to an older open node, and then it is a
class of nodes that reach each other.

## Main definitions

- `Mutual` — two places reach each other
- `IsClass` — a list of places holds all places that reach, and are reached from, one of them
- `Walk.Sound` — the invariant of the walk
- `Walk.Extends` — what a visit leaves as it was
- `Walk.Visit` — what is known of a finished visit
- `Walk.close` — a group of open nodes is closed

## Main results

- `Walk.Sound.enter`, `Walk.Sound.close` — opening a node and closing a class keep the invariant
- `Walk.visit_spec` — a visit keeps the invariant, whatever it starts from
- `mem_components_iff`, `components_class` — the groups are the classes of more than one place
-/

namespace FlowScript.Graph

open Relation

variable {g : Graph}

/-- Two places reach each other. -/
def Mutual (g : Graph) (i j : Nat) : Prop :=
  g.Reach i j ∧ g.Reach j i

/-- A list of places is one class of places that reach each other. -/
def IsClass (g : Graph) (group : List Nat) : Prop :=
  ∀ i ∈ group, ∀ j, j ∈ group ↔ g.Mutual i j

theorem mem_neighbours_iff {i j : Nat} :
    j ∈ g.neighbours i ↔ j < g.size ∧ j ≠ i ∧ g.Edge i j := by
  simp [neighbours, Edge]

namespace Walk

variable {w w' : Walk} {i j n : Nat}

theorem enter_isVisited : (w.enter i).isVisited j ↔ j = i ∨ w.isVisited j := by
  by_cases h : j = i
  · simp [isVisited, enter, h]
  · have hne : (j == i) = false := by simpa using h
    simp [isVisited, enter, List.lookup_cons, hne, h]

theorem mem_enter_stack : j ∈ (w.enter i).stack ↔ j = i ∨ j ∈ w.stack := by
  simp [enter]

theorem enter_numberOf_self : (w.enter i).numberOf i = w.next := by
  simp [numberOf, enter]

theorem enter_numberOf_of_ne (h : j ≠ i) : (w.enter i).numberOf j = w.numberOf j := by
  have hne : (j == i) = false := by simpa using h
  simp [numberOf, enter, List.lookup_cons, hne]

theorem enter_lowOf_self : (w.enter i).lowOf i = w.next := by
  simp [lowOf, enter]

theorem enter_lowOf_of_ne (h : j ≠ i) : (w.enter i).lowOf j = w.lowOf j := by
  have hne : (j == i) = false := by simpa using h
  simp [lowOf, enter, List.lookup_cons, hne]

theorem lower_lowOf_self : (w.lower i n).lowOf i = min (w.lowOf i) n := by
  simp [lowOf, lower]

theorem lower_lowOf_of_ne (h : j ≠ i) : (w.lower i n).lowOf j = w.lowOf j := by
  have hne : (j == i) = false := by simpa using h
  simp [lowOf, lower, List.lookup_cons, hne]

/-- A node has been visited and its group is closed. -/
def IsClosed (w : Walk) (i : Nat) : Prop :=
  w.isVisited i ∧ i ∉ w.stack

theorem enter_isClosed (hnew : ¬ w.isVisited i) : (w.enter i).IsClosed j ↔ w.IsClosed j := by
  unfold IsClosed
  rw [enter_isVisited, mem_enter_stack]
  constructor
  · rintro ⟨rfl | hv, hs⟩
    · exact absurd (Or.inl rfl) hs
    · exact ⟨hv, fun hm => hs (Or.inr hm)⟩
  · rintro ⟨hv, hs⟩
    have hji : j ≠ i := fun e => hnew (e ▸ hv)
    exact ⟨Or.inr hv, fun hm => hm.elim hji hs⟩

/-- The invariant of the walk while the nodes of `path` are being visited. -/
structure Sound (g : Graph) (path : List Nat) (w : Walk) : Prop where
  inside : ∀ i, w.isVisited i → i < g.size
  number_lt : ∀ i, w.isVisited i → w.numberOf i < w.next
  number_inj : ∀ i j, w.isVisited i → w.isVisited j → w.numberOf i = w.numberOf j → i = j
  stack_visited : ∀ i ∈ w.stack, w.isVisited i
  stack_sorted : w.stack.Pairwise (fun a b => w.numberOf b < w.numberOf a)
  path_open : ∀ i ∈ path, i ∈ w.stack
  explored : ∀ i, w.isVisited i → i ∉ path → ∀ j, g.Edge i j → w.isVisited j
  chain : ∀ a ∈ w.stack, ∀ b ∈ w.stack, w.numberOf a ≤ w.numberOf b → g.Reach a b
  back : ∀ a ∈ w.stack, ∃ p ∈ path, w.numberOf p ≤ w.numberOf a ∧ g.Reach a p
  closed : ∀ i j, w.IsClosed i → g.Edge i j → w.IsClosed j
  group_closed : ∀ group ∈ w.groups, ∀ i ∈ group, w.IsClosed i
  group_sorted : ∀ group ∈ w.groups, group.Pairwise (· < ·) ∧ 1 < group.length
  group_class : ∀ group ∈ w.groups, g.IsClass group
  grouped : ∀ i, w.IsClosed i → ∀ j, j ≠ i → g.Mutual i j → ∃ group ∈ w.groups, i ∈ group
  group_order : w.groups.Pairwise (fun later earlier => ∀ a ∈ earlier, ∀ b ∈ later, ¬ g.Reach a b)

/-- What a visit does not touch: the numbers and low numbers of the nodes that had been visited, and
the open nodes, on top of which it may leave new ones. -/
structure Extends (w w' : Walk) : Prop where
  visited : ∀ i, w.isVisited i → w'.isVisited i
  number : ∀ i, w.isVisited i → w'.numberOf i = w.numberOf i
  low : ∀ i, w.isVisited i → w'.lowOf i = w.lowOf i
  fresh : ∀ i, w'.isVisited i → ¬ w.isVisited i → w.next ≤ w'.numberOf i
  next : w.next ≤ w'.next
  stack : ∃ new, w'.stack = new ++ w.stack ∧ ∀ i ∈ new, ¬ w.isVisited i

/-- A finished visit of `i`: either its group is closed, or an older open node is reached and the low
number is that of such a node; no edge from the new open nodes leads below the low number. -/
structure Visit (g : Graph) (path : List Nat) (i : Nat) (w w' : Walk) : Prop where
  sound : Sound g path w'
  ext : Extends w w'
  visited : w'.isVisited i
  low_of_closed : i ∉ w'.stack → w'.lowOf i = w'.numberOf i
  low_of_open : i ∈ w'.stack → ∃ y ∈ w.stack, g.Reach i y ∧ w'.lowOf i = w.numberOf y
  bound : ∀ x ∈ w'.stack, ¬ w.isVisited x → ∀ y ∈ w.stack, g.Edge x y →
    w'.lowOf i ≤ w.numberOf y

theorem Extends.refl (w : Walk) : Extends w w :=
  ⟨fun _ h => h, fun _ _ => rfl, fun _ _ => rfl, fun _ h h' => absurd h h', le_rfl, [], rfl, by simp⟩

theorem Extends.mem_stack (h : Extends w w') (hj : j ∈ w.stack) : j ∈ w'.stack := by
  obtain ⟨new, hs, -⟩ := h.stack
  rw [hs]
  exact List.mem_append_right new hj

theorem Extends.mem_stack_of_visited (h : Extends w w') (hj : j ∈ w'.stack)
    (hv : w.isVisited j) : j ∈ w.stack := by
  obtain ⟨new, hs, hnew⟩ := h.stack
  rw [hs] at hj
  exact (List.mem_append.mp hj).resolve_left (fun hn => hnew j hn hv)

/-- A visit whose low number is one that was given before it has reached a node that was open. -/
theorem Visit.exists_open_of_low_lt {path : List Nat} (h : Visit g path i w w')
    (hi : ¬ w.isVisited i) (hlow : w'.lowOf i < w.next) :
    ∃ y ∈ w.stack, g.Reach i y ∧ w'.lowOf i = w.numberOf y := by
  refine h.low_of_open ?_
  by_contra hclosed
  -- the low number of a closed node is its own number, which is too large
  have hown := h.low_of_closed hclosed
  have hfresh := h.ext.fresh i h.visited hi
  omega

theorem Sound.lower {path : List Nat} (h : Sound g path w) (i n : Nat) :
    Sound g path (w.lower i n) :=
  ⟨h.inside, h.number_lt, h.number_inj, h.stack_visited, h.stack_sorted, h.path_open, h.explored,
    h.chain, h.back, h.closed, h.group_closed, h.group_sorted, h.group_class, h.grouped,
    h.group_order⟩

theorem Sound.reach_closed {path : List Nat} (h : Sound g path w) {i j : Nat} (hi : w.IsClosed i)
    (hr : g.Reach i j) : w.IsClosed j :=
  hr.closed h.closed hi

theorem Sound.stack_nodup {path : List Nat} (h : Sound g path w) : w.stack.Nodup :=
  h.stack_sorted.imp (fun hab he => by rw [he] at hab; exact lt_irrefl _ hab)

/-- Entering a node that every node of the path reaches keeps the invariant. -/
theorem Sound.enter {path : List Nat} (h : Sound g path w) (hi : i < g.size)
    (hnew : ¬ w.isVisited i) (hreach : ∀ p ∈ path, g.Reach p i) :
    Sound g (i :: path) (w.enter i) := by
  have hnum : ∀ j, w.isVisited j → (w.enter i).numberOf j = w.numberOf j :=
    fun j hj => enter_numberOf_of_ne (fun e => hnew (e ▸ hj))
  have hnext : (w.enter i).next = w.next + 1 := rfl
  constructor
  case inside =>
    intro j hj
    rcases enter_isVisited.mp hj with rfl | hj
    · exact hi
    · exact h.inside j hj
  case number_lt =>
    intro j hj
    rcases enter_isVisited.mp hj with rfl | hj
    · rw [enter_numberOf_self, hnext]
      omega
    · rw [hnum j hj, hnext]
      have := h.number_lt j hj
      omega
  case number_inj =>
    intro a b ha hb hab
    rcases enter_isVisited.mp ha with rfl | hva <;> rcases enter_isVisited.mp hb with rfl | hvb
    · rfl
    · rw [enter_numberOf_self, hnum b hvb] at hab
      have := h.number_lt b hvb
      omega
    · rw [enter_numberOf_self, hnum a hva] at hab
      have := h.number_lt a hva
      omega
    · rw [hnum a hva, hnum b hvb] at hab
      exact h.number_inj a b hva hvb hab
  case stack_visited =>
    intro j hj
    exact enter_isVisited.mpr ((mem_enter_stack.mp hj).imp_right (h.stack_visited j))
  case stack_sorted =>
    refine List.pairwise_cons.mpr ⟨?_, ?_⟩
    · intro b hb
      have hv := h.stack_visited b hb
      rw [enter_numberOf_self, hnum b hv]
      exact h.number_lt b hv
    · refine h.stack_sorted.imp_of_mem ?_
      intro a b ha hb hab
      rw [hnum a (h.stack_visited a ha), hnum b (h.stack_visited b hb)]
      exact hab
  case path_open =>
    intro j hj
    exact mem_enter_stack.mpr ((List.mem_cons.mp hj).imp_right (h.path_open j))
  case explored =>
    intro j hj hp k hk
    rw [List.mem_cons, not_or] at hp
    have hv := (enter_isVisited.mp hj).resolve_left hp.1
    exact enter_isVisited.mpr (Or.inr (h.explored j hv hp.2 k hk))
  case chain =>
    intro a ha b hb hab
    rcases mem_enter_stack.mp ha with rfl | hsa <;> rcases mem_enter_stack.mp hb with rfl | hsb
    · exact Reach.refl _
    · have hv := h.stack_visited b hsb
      rw [enter_numberOf_self, hnum b hv] at hab
      have := h.number_lt b hv
      omega
    · -- an open node leads back to the path, and the path leads to the new node
      obtain ⟨p, hp, -, hr⟩ := h.back a hsa
      exact hr.trans (hreach p hp)
    · rw [hnum a (h.stack_visited a hsa), hnum b (h.stack_visited b hsb)] at hab
      exact h.chain a hsa b hsb hab
  case back =>
    intro a ha
    rcases mem_enter_stack.mp ha with rfl | ha
    · exact ⟨a, List.mem_cons_self, le_rfl, Reach.refl a⟩
    · obtain ⟨p, hp, hle, hr⟩ := h.back a ha
      refine ⟨p, List.mem_cons_of_mem i hp, ?_, hr⟩
      rw [hnum p (h.stack_visited p (h.path_open p hp)), hnum a (h.stack_visited a ha)]
      exact hle
  case closed =>
    intro a b ha hab
    exact (enter_isClosed hnew).mpr (h.closed a b ((enter_isClosed hnew).mp ha) hab)
  case group_closed =>
    intro group hg a ha
    exact (enter_isClosed hnew).mpr (h.group_closed group hg a ha)
  case group_sorted => exact h.group_sorted
  case group_class => exact h.group_class
  case grouped =>
    intro a ha
    exact h.grouped a ((enter_isClosed hnew).mp ha)
  case group_order => exact h.group_order

/-- The visit of `i` is under way: it has followed the edges to the nodes in `seen`. -/
structure Exploring (g : Graph) (path : List Nat) (i : Nat) (seen : List Nat) (w w' : Walk) :
    Prop where
  sound : Sound g (i :: path) w'
  ext : Extends w w'
  stack : ∃ new, w'.stack = new ++ i :: w.stack ∧ ∀ x ∈ new, ¬ w.isVisited x
  low_le : w'.lowOf i ≤ w'.numberOf i
  low_reach : ∃ y ∈ w'.stack, g.Reach i y ∧ w'.lowOf i = w'.numberOf y
  bound : ∀ x ∈ w'.stack, ¬ w.isVisited x → x ≠ i → ∀ y ∈ w.stack, g.Edge x y →
    w'.lowOf i ≤ w.numberOf y
  bound_seen : ∀ j ∈ seen, j ∈ w.stack → w'.lowOf i ≤ w.numberOf j
  seen_visited : ∀ j ∈ seen, w'.isVisited j

theorem Extends.enter (hnew : ¬ w.isVisited i) : Extends w (w.enter i) := by
  have hne : ∀ j, w.isVisited j → j ≠ i := fun j hj e => hnew (e ▸ hj)
  refine ⟨fun j hj => enter_isVisited.mpr (Or.inr hj),
    fun j hj => enter_numberOf_of_ne (hne j hj), fun j hj => enter_lowOf_of_ne (hne j hj), ?_,
    Nat.le_succ _, [i], rfl, ?_⟩
  · intro j hj hold
    rcases enter_isVisited.mp hj with rfl | hj
    · rw [enter_numberOf_self]
    · exact absurd hj hold
  · intro j hj
    rw [List.mem_singleton.mp hj]
    exact hnew

theorem Exploring.enter {path : List Nat} (h : Sound g path w) (hi : i < g.size)
    (hnew : ¬ w.isVisited i) (hreach : ∀ p ∈ path, g.Reach p i) :
    Exploring g path i [] w (w.enter i) := by
  refine ⟨h.enter hi hnew hreach, Extends.enter hnew, ⟨[], rfl, by simp⟩, ?_, ?_, ?_, by simp,
    by simp⟩
  · rw [enter_lowOf_self, enter_numberOf_self]
  · exact ⟨i, List.mem_cons_self, Reach.refl i, by rw [enter_lowOf_self, enter_numberOf_self]⟩
  · intro x hx hold hxi
    rcases List.mem_cons.mp hx with rfl | hx
    · exact absurd rfl hxi
    · exact absurd (h.stack_visited x hx) hold

theorem Extends.trans {w₁ w₂ w₃ : Walk} (h : Extends w₁ w₂) (h' : Extends w₂ w₃) :
    Extends w₁ w₃ := by
  obtain ⟨new, hs, hnew⟩ := h.stack
  obtain ⟨new', hs', hnew'⟩ := h'.stack
  refine ⟨fun i hi => h'.visited i (h.visited i hi), ?_, ?_, ?_, le_trans h.next h'.next,
    new' ++ new, by rw [hs', hs, List.append_assoc], ?_⟩
  · intro i hi
    rw [h'.number i (h.visited i hi), h.number i hi]
  · intro i hi
    rw [h'.low i (h.visited i hi), h.low i hi]
  · intro i hi hold
    by_cases hmid : w₂.isVisited i
    · rw [h'.number i hmid]
      exact h.fresh i hmid hold
    · exact le_trans h.next (h'.fresh i hi hmid)
  · intro i hi
    rcases List.mem_append.mp hi with hi | hi
    · exact fun hv => hnew' i hi (h.visited i hv)
    · exact hnew i hi

/-- The low number of a node that is visited now is not part of what a visit leaves alone. -/
theorem Extends.lower (h : Extends w w') (hi : ¬ w.isVisited i) (n : Nat) :
    Extends w (w'.lower i n) := by
  refine ⟨h.visited, h.number, ?_, h.fresh, h.next, h.stack⟩
  intro j hj
  have hne : j ≠ i := fun e => hi (e ▸ hj)
  rw [lower_lowOf_of_ne hne]
  exact h.low j hj

/-- Follows one edge of the node `i`. -/
def follow (g : Graph) (fuel i : Nat) (w : Walk) (j : Nat) : Walk :=
  if !w.isVisited j then
    (visit g fuel j w).lower i ((visit g fuel j w).lowOf j)
  else if w.stack.contains j then w.lower i (w.numberOf j)
  else w

theorem visit_succ (g : Graph) (fuel i : Nat) (w : Walk) :
    visit g (fuel + 1) i w = ((g.neighbours i).foldl (follow g fuel i) (w.enter i)).leave i :=
  rfl

section Follow

variable {path seen : List Nat} {fuel : Nat}

theorem Exploring.open_self (h : Exploring g path i seen w w') : i ∈ w'.stack :=
  h.sound.path_open i List.mem_cons_self

theorem Exploring.visited_self (h : Exploring g path i seen w w') : w'.isVisited i :=
  h.sound.stack_visited i h.open_self

/-- The numbers given since the visit began start with that of its node. -/
theorem Exploring.numberOf_le (h : Exploring g path i seen w w') (hw : Sound g path w)
    (hj : j ∈ w'.stack) (hnew : ¬ w.isVisited j) : w'.numberOf i ≤ w'.numberOf j := by
  obtain ⟨new, hs, -⟩ := h.stack
  have hsorted := h.sound.stack_sorted
  rw [hs] at hj hsorted
  rcases List.mem_append.mp hj with hj | hj
  · exact ((List.pairwise_append.mp hsorted).2.2 j hj i List.mem_cons_self).le
  · rcases List.mem_cons.mp hj with rfl | hj
    · exact le_rfl
    · exact absurd (hw.stack_visited j hj) hnew

/-- Following an edge to a node that had not been visited. -/
theorem Exploring.follow_new (h : Exploring g path i seen w w') (hw : Sound g path w)
    (hi : ¬ w.isVisited i) (hedge : g.Edge i j) (hj : ¬ w'.isVisited j)
    (hv : Visit g (i :: path) j w' (visit g fuel j w')) :
    Exploring g path i (seen ++ [j]) w
      ((visit g fuel j w').lower i ((visit g fuel j w').lowOf j)) := by
  generalize visit g fuel j w' = v at hv ⊢
  have hlow : v.lowOf i = w'.lowOf i := hv.ext.low i h.visited_self
  have hnum : ∀ y ∈ w'.stack, v.numberOf y = w'.numberOf y :=
    fun y hy => hv.ext.number y (h.sound.stack_visited y hy)
  have hmin : (v.lower i (v.lowOf j)).lowOf i = min (w'.lowOf i) (v.lowOf j) := by
    rw [lower_lowOf_self, hlow]
  constructor
  case sound => exact hv.sound.lower i _
  case ext => exact (h.ext.trans hv.ext).lower hi _
  case stack =>
    obtain ⟨new, hs, hnew⟩ := hv.ext.stack
    obtain ⟨new', hs', hnew'⟩ := h.stack
    refine ⟨new ++ new', by simp [Walk.lower, hs, hs'], ?_⟩
    intro x hx
    rcases List.mem_append.mp hx with hx | hx
    · exact fun hold => hnew x hx (h.ext.visited x hold)
    · exact hnew' x hx
  case low_le =>
    rw [hmin]
    exact le_trans (min_le_left _ _) (h.low_le.trans_eq (hnum i h.open_self).symm)
  case low_reach =>
    rw [hmin]
    by_cases hlt : v.lowOf j < w'.lowOf i
    · have hbefore : v.lowOf j < w'.next :=
        hlt.trans_le (h.low_le.trans (h.sound.number_lt i h.visited_self).le)
      obtain ⟨y, hy, hr, hl⟩ := hv.exists_open_of_low_lt hj hbefore
      refine ⟨y, hv.ext.mem_stack hy, hedge.reach.trans hr, ?_⟩
      rw [min_eq_right hlt.le, hl]
      exact (hnum y hy).symm
    · obtain ⟨y, hy, hr, hl⟩ := h.low_reach
      refine ⟨y, hv.ext.mem_stack hy, hr, ?_⟩
      rw [min_eq_left (not_lt.mp hlt), hl]
      exact (hnum y hy).symm
  case bound =>
    -- an edge to an older node starts from a node that was open already or from a new one
    intro x hx hold hxi y hy he
    rw [hmin]
    by_cases hmid : w'.isVisited x
    · have hx' : x ∈ w'.stack := hv.ext.mem_stack_of_visited hx hmid
      exact le_trans (min_le_left _ _) (h.bound x hx' hold hxi y hy he)
    · have := hv.bound x hx hmid y (h.ext.mem_stack hy) he
      rw [h.ext.number y (hw.stack_visited y hy)] at this
      exact le_trans (min_le_right _ _) this
  case bound_seen =>
    intro k hk hkw
    rcases List.mem_append.mp hk with hk | hk
    · rw [hmin]
      exact le_trans (min_le_left _ _) (h.bound_seen k hk hkw)
    · rw [List.mem_singleton.mp hk] at hkw
      exact absurd (h.ext.visited j (hw.stack_visited j hkw)) hj
  case seen_visited =>
    intro k hk
    rcases List.mem_append.mp hk with hk | hk
    · exact hv.ext.visited k (h.seen_visited k hk)
    · rw [List.mem_singleton.mp hk]
      exact hv.visited

/-- Following an edge to an open node. -/
theorem Exploring.follow_open (h : Exploring g path i seen w w') (hw : Sound g path w)
    (hi : ¬ w.isVisited i) (hedge : g.Edge i j) (hj : j ∈ w'.stack) :
    Exploring g path i (seen ++ [j]) w (w'.lower i (w'.numberOf j)) := by
  have hmin : (w'.lower i (w'.numberOf j)).lowOf i = min (w'.lowOf i) (w'.numberOf j) :=
    lower_lowOf_self
  refine ⟨h.sound.lower i _, h.ext.lower hi _, h.stack, ?_, ?_, ?_, ?_, ?_⟩
  · rw [hmin]
    exact le_trans (min_le_left _ _) h.low_le
  · rw [hmin]
    by_cases hlt : w'.numberOf j < w'.lowOf i
    · exact ⟨j, hj, hedge.reach, min_eq_right hlt.le⟩
    · obtain ⟨y, hy, hr, hl⟩ := h.low_reach
      exact ⟨y, hy, hr, by rw [min_eq_left (not_lt.mp hlt), hl]; rfl⟩
  · intro x hx hold hxi y hy he
    rw [hmin]
    exact le_trans (min_le_left _ _) (h.bound x hx hold hxi y hy he)
  · intro k hk hkw
    rw [hmin]
    rcases List.mem_append.mp hk with hk | hk
    · exact le_trans (min_le_left _ _) (h.bound_seen k hk hkw)
    · rw [List.mem_singleton.mp hk] at hkw ⊢
      rw [← h.ext.number j (hw.stack_visited j hkw)]
      exact min_le_right _ _
  · intro k hk
    rcases List.mem_append.mp hk with hk | hk
    · exact h.seen_visited k hk
    · rw [List.mem_singleton.mp hk]
      exact h.sound.stack_visited j hj

/-- Following an edge to a closed node changes nothing. -/
theorem Exploring.follow_closed (h : Exploring g path i seen w w') (hj : w'.IsClosed j) :
    Exploring g path i (seen ++ [j]) w w' := by
  refine ⟨h.sound, h.ext, h.stack, h.low_le, h.low_reach, h.bound, ?_, ?_⟩
  · intro k hk hkw
    rcases List.mem_append.mp hk with hk | hk
    · exact h.bound_seen k hk hkw
    · -- a closed node is not open, so it was not open before either
      rw [List.mem_singleton.mp hk] at hkw
      exact absurd (h.ext.mem_stack hkw) hj.2
  · intro k hk
    rcases List.mem_append.mp hk with hk | hk
    · exact h.seen_visited k hk
    · rw [List.mem_singleton.mp hk]
      exact hj.1

/-- Following one edge, given that visits of new nodes go well. -/
theorem Exploring.follow (h : Exploring g path i seen w w') (hw : Sound g path w)
    (hi : ¬ w.isVisited i) (hedge : g.Edge i j)
    (hv : ¬ w'.isVisited j → Visit g (i :: path) j w' (visit g fuel j w')) :
    Exploring g path i (seen ++ [j]) w (follow g fuel i w' j) := by
  unfold Walk.follow
  by_cases hj : w'.isVisited j
  · rw [if_neg (by simp [hj])]
    split
    · next ho => exact h.follow_open hw hi hedge (by simpa using ho)
    · next hc => exact h.follow_closed ⟨hj, by simpa using hc⟩
  · rw [if_pos (by simp [hj])]
    exact h.follow_new hw hi hedge hj (hv hj)

end Follow

section Leave

variable {path seen : List Nat}

/-- Every edge of the node `i` has been followed. -/
def Explored (g : Graph) (i : Nat) (seen : List Nat) : Prop :=
  ∀ j, g.Edge i j → j ≠ i → j ∈ seen

theorem Exploring.explored (h : Exploring g path i seen w w') (hseen : Explored g i seen)
    {a b : Nat} (ha : w'.isVisited a) (hpath : a ∉ path) (he : g.Edge a b) : w'.isVisited b := by
  by_cases hai : a = i
  · subst hai
    -- an edge of `i` to itself is not followed, but `i` has been visited
    by_cases hba : b = a
    · rw [hba]
      exact ha
    · exact h.seen_visited b (hseen b he hba)
  · exact h.sound.explored a ha (by simp [hai, hpath]) b he

/-- The nodes that are on the stack since the visit of `i` began have no edge out of their region
except to closed nodes, when the low number of `i` is its own number. -/
theorem Exploring.region_closed (h : Exploring g path i seen w w') (hw : Sound g path w)
    (hi : ¬ w.isVisited i) (hseen : Explored g i seen) (hlow : w'.lowOf i = w'.numberOf i)
    {a b : Nat} (ha : (a ∈ w'.stack ∧ ¬ w.isVisited a) ∨ w'.IsClosed a) (hr : g.Reach a b) :
    (b ∈ w'.stack ∧ ¬ w.isVisited b) ∨ w'.IsClosed b := by
  refine hr.closed (P := fun b => (b ∈ w'.stack ∧ ¬ w.isVisited b) ∨ w'.IsClosed b) ?_ ha
  rintro x y (⟨hx, hxn⟩ | hx) he
  · have hxv : w'.isVisited x := h.sound.stack_visited x hx
    have hyv : w'.isVisited y := h.explored hseen hxv
      (fun hp => hxn (hw.stack_visited x (hw.path_open x hp))) he
    by_cases hyo : y ∈ w'.stack
    · by_cases hyw' : w.isVisited y
      · -- an edge to an older open node would have lowered the low number
        exfalso
        have hyw : y ∈ w.stack := h.ext.mem_stack_of_visited hyo hyw'
        have hyi : y ≠ i := fun e => hi (e ▸ hyw')
        have hle : w'.lowOf i ≤ w.numberOf y := by
          by_cases hxi : x = i
          · subst hxi
            exact h.bound_seen y (hseen y he hyi) hyw
          · exact h.bound x hx hxn hxi y hyw he
        have h1 := hw.number_lt y hyw'
        have h2 := h.ext.fresh i h.visited_self hi
        omega
      · exact Or.inl ⟨hyo, hyw'⟩
    · exact Or.inr ⟨hyv, hyo⟩
  · exact Or.inr (h.sound.closed x y hx he)

/-- When the low number of `i` is its own number, the nodes on the stack since its visit began are
one class. -/
theorem Exploring.region_class (h : Exploring g path i seen w w') (hw : Sound g path w)
    (hi : ¬ w.isVisited i) (hseen : Explored g i seen) (hlow : w'.lowOf i = w'.numberOf i)
    {a : Nat} (ha : a ∈ w'.stack ∧ ¬ w.isVisited a) (b : Nat) :
    (b ∈ w'.stack ∧ ¬ w.isVisited b) ↔ g.Mutual a b := by
  -- every node of the region reaches `i` and is reached from it
  have hfrom : ∀ x, x ∈ w'.stack → ¬ w.isVisited x → g.Reach i x :=
    fun x hx hxn => h.sound.chain i h.open_self x hx (h.numberOf_le hw hx hxn)
  have hto : ∀ x, x ∈ w'.stack → ¬ w.isVisited x → g.Reach x i := by
    intro x hx hxn
    obtain ⟨p, hp, -, hr⟩ := h.sound.back x hx
    rcases List.mem_cons.mp hp with rfl | hp
    · exact hr
    · rcases h.region_closed hw hi hseen hlow (Or.inl ⟨hx, hxn⟩) hr with ⟨-, hpn⟩ | hpc
      · exact absurd (hw.stack_visited p (hw.path_open p hp)) hpn
      · exact absurd (h.sound.path_open p (List.mem_cons_of_mem i hp)) hpc.2
  constructor
  · rintro ⟨hb, hbn⟩
    exact ⟨(hto a ha.1 ha.2).trans (hfrom b hb hbn), (hto b hb hbn).trans (hfrom a ha.1 ha.2)⟩
  · rintro ⟨hab, hba⟩
    rcases h.region_closed hw hi hseen hlow (Or.inl ha) hab with hb | hb
    · exact hb
    · exact absurd ha.1 (h.sound.reach_closed hb hba).2

/-- Leaving a node from which an older open node is reached: the node stays open. -/
theorem Exploring.leave_open (h : Exploring g path i seen w w') (hw : Sound g path w)
    (hi : ¬ w.isVisited i) (hseen : Explored g i seen) (hlow : w'.lowOf i ≠ w'.numberOf i) :
    Visit g path i w w' := by
  obtain ⟨y, hy, hr, hl⟩ := h.low_reach
  have hlt : w'.numberOf y < w'.numberOf i := by
    have := h.low_le
    omega
  have hyw : y ∈ w.stack := by
    refine h.ext.mem_stack_of_visited hy ?_
    by_contra hyn
    exact absurd hlt (not_lt.mpr (h.numberOf_le hw hy hyn))
  have hnumy : w'.numberOf y = w.numberOf y := h.ext.number y (hw.stack_visited y hyw)
  -- the older node leads back to the path, since it is older than `i`
  obtain ⟨q, hq, hqy, hyq⟩ := h.sound.back y hy
  have hqpath : q ∈ path := by
    rcases List.mem_cons.mp hq with rfl | hq
    · omega
    · exact hq
  have hsound : Sound g path w' :=
    { h.sound with
      path_open := fun j hj => h.sound.path_open j (List.mem_cons_of_mem i hj)
      explored := fun j hj hjp k hk => h.explored hseen hj hjp hk
      back := by
        intro a ha
        obtain ⟨p, hp, hle, hra⟩ := h.sound.back a ha
        rcases List.mem_cons.mp hp with rfl | hp
        · exact ⟨q, hqpath, by omega, hra.trans (hr.trans hyq)⟩
        · exact ⟨p, hp, hle, hra⟩ }
  refine ⟨hsound, h.ext, h.visited_self, fun hn => absurd h.open_self hn,
    fun _ => ⟨y, hyw, hr, by rw [hl, hnumy]⟩, ?_⟩
  intro x hx hxn z hz he
  by_cases hxi : x = i
  · subst hxi
    have hzx : z ≠ x := fun e => hi (e ▸ hw.stack_visited z hz)
    exact h.bound_seen z (hseen z he hzx) hz
  · exact h.bound x hx hxn hxi z hz he

/-- The walk after the open nodes of a group have been closed, with the nodes of `rest` still open.
A group of one node is not kept. -/
def close (w : Walk) (group rest : List Nat) : Walk :=
  { w with
    stack := rest
    groups := if 1 < group.length then group.mergeSort (fun a b => a ≤ b) :: w.groups
      else w.groups }

theorem mem_close_groups {group rest kept : List Nat} :
    kept ∈ (w.close group rest).groups ↔
      kept ∈ w.groups ∨ 1 < group.length ∧ kept = group.mergeSort (fun a b => a ≤ b) := by
  change kept ∈ (if 1 < group.length then _ else _) ↔ _
  by_cases hlen : 1 < group.length <;> simp [hlen, or_comm]

/-- Closed afterwards is what was closed before, and the group. -/
theorem close_isClosed {group rest : List Nat} (hs : w.stack = group ++ rest)
    (hv : ∀ j ∈ w.stack, w.isVisited j) (hnd : w.stack.Nodup) :
    (w.close group rest).IsClosed j ↔ w.IsClosed j ∨ j ∈ group := by
  change (w.isVisited j ∧ j ∉ rest) ↔ (w.isVisited j ∧ j ∉ w.stack) ∨ j ∈ group
  rw [hs] at hv hnd ⊢
  have hout : j ∈ group → j ∉ rest := fun hg hr => (List.nodup_append.mp hnd).2.2 j hg j hr rfl
  have hgroup : j ∈ group → w.isVisited j := fun hg => hv j (List.mem_append_left rest hg)
  rw [List.mem_append, not_or]
  tauto

/-- Leaving a node that closes its group takes the group off the stack. -/
theorem leave_eq {new rest : List Nat} (hs : w.stack = new ++ i :: rest) (hi : i ∉ new)
    (hlow : w.lowOf i = w.numberOf i) : w.leave i = w.close (new ++ [i]) rest := by
  have hne : ∀ a ∈ new, (a != i) = true := by
    intro a ha
    have : a ≠ i := fun e => hi (e ▸ ha)
    simpa using this
  have htake : w.stack.takeWhile (· != i) = new := by
    rw [hs, List.takeWhile_append_of_pos hne]
    simp
  have hdrop : (w.stack.dropWhile (· != i)).drop 1 = rest := by
    rw [hs, List.dropWhile_append_of_pos hne]
    simp
  rw [Walk.leave, if_pos hlow, htake, hdrop, close]

theorem mergeSort_pairwise_lt {group : List Nat} (h : group.Nodup) :
    (group.mergeSort (fun a b => a ≤ b)).Pairwise (· < ·) := by
  have hle : (group.mergeSort (fun a b => a ≤ b)).Pairwise (· ≤ ·) := by
    simpa using @List.pairwise_mergeSort Nat (fun a b => decide (a ≤ b))
      (by intro a b c; simpa using le_trans) (by intro a b; simpa using le_total a b) group
  have hnodup : (group.mergeSort (fun a b => a ≤ b)).Nodup :=
    (List.mergeSort_perm group _).nodup_iff.mpr h
  exact hle.imp₂ (fun _ _ h1 h2 => lt_of_le_of_ne h1 h2) hnodup

theorem one_lt_length_of_mem {group : List Nat} {a b : Nat} (ha : a ∈ group) (hb : b ∈ group)
    (hab : a ≠ b) : 1 < group.length := by
  by_contra hle
  obtain ⟨c, rfl⟩ := List.length_eq_one_iff.mp
    (le_antisymm (not_lt.mp hle) (List.length_pos_of_mem ha))
  rw [List.mem_singleton] at ha hb
  exact hab (ha.trans hb.symm)

/-- Closing the class on top of the stack keeps the invariant, when its edges lead nowhere but into
the class and to closed nodes. -/
theorem Sound.close {group rest : List Nat} (h : Sound g (i :: path) w)
    (hs : w.stack = group ++ rest) (hi : i ∈ group) (hpath : ∀ p ∈ path, p ∈ rest)
    (hclass : g.IsClass group) (hout : ∀ a ∈ group, ∀ b, g.Edge a b → b ∈ group ∨ w.IsClosed b) :
    Sound g path (w.close group rest) := by
  have hclosed : ∀ j, (w.close group rest).IsClosed j ↔ w.IsClosed j ∨ j ∈ group :=
    fun j => close_isClosed hs h.stack_visited h.stack_nodup
  have hopen : ∀ a ∈ rest, a ∈ w.stack := fun a ha => hs ▸ List.mem_append_right group ha
  have hgroup : ∀ a ∈ group, a ∈ w.stack := fun a ha => hs ▸ List.mem_append_left rest ha
  have hsorted := h.stack_sorted
  rw [hs] at hsorted
  obtain ⟨-, hrest, hbelow⟩ := List.pairwise_append.mp hsorted
  constructor
  case inside => exact h.inside
  case number_lt => exact h.number_lt
  case number_inj => exact h.number_inj
  case stack_visited => exact fun a ha => h.stack_visited a (hopen a ha)
  case stack_sorted => exact hrest
  case path_open => exact hpath
  case explored =>
    intro a ha hp b he
    by_cases hai : a = i
    · rcases hout i hi b (hai ▸ he) with hb | hb
      · exact h.stack_visited b (hgroup b hb)
      · exact hb.1
    · exact h.explored a ha (by simp [hai, hp]) b he
  case chain => exact fun a ha b hb => h.chain a (hopen a ha) b (hopen b hb)
  case back =>
    intro a ha
    obtain ⟨p, hp, hle, hr⟩ := h.back a (hopen a ha)
    rcases List.mem_cons.mp hp with rfl | hp
    · exact absurd hle (not_le.mpr (hbelow p hi a ha))
    · exact ⟨p, hp, hle, hr⟩
  case closed =>
    intro a b ha he
    rw [hclosed] at ha ⊢
    rcases ha with ha | ha
    · exact Or.inl (h.closed a b ha he)
    · exact (hout a ha b he).symm
  case group_closed =>
    intro kept hk a ha
    rw [hclosed]
    rcases mem_close_groups.mp hk with hk | ⟨-, rfl⟩
    · exact Or.inl (h.group_closed kept hk a ha)
    · exact Or.inr (List.mem_mergeSort.mp ha)
  case group_sorted =>
    intro kept hk
    rcases mem_close_groups.mp hk with hk | ⟨hlen, rfl⟩
    · exact h.group_sorted kept hk
    · have hnd := h.stack_nodup
      rw [hs] at hnd
      exact ⟨mergeSort_pairwise_lt (List.nodup_append.mp hnd).1, by rwa [List.length_mergeSort]⟩
  case group_class =>
    intro kept hk
    rcases mem_close_groups.mp hk with hk | ⟨-, rfl⟩
    · exact h.group_class kept hk
    · intro a ha b
      rw [List.mem_mergeSort] at ha ⊢
      exact hclass a ha b
  case grouped =>
    intro a ha b hba hab
    rcases (hclosed a).mp ha with ha | ha
    · obtain ⟨kept, hk, hmem⟩ := h.grouped a ha b hba hab
      exact ⟨kept, mem_close_groups.mpr (Or.inl hk), hmem⟩
    · -- the other node of a pair is in the group too, so the group is large enough to be kept
      have hlen := one_lt_length_of_mem ((hclass a ha b).mpr hab) ha hba
      exact ⟨_, mem_close_groups.mpr (Or.inr ⟨hlen, rfl⟩), List.mem_mergeSort.mpr ha⟩
  case group_order =>
    change List.Pairwise _ (if 1 < group.length then _ else _)
    split
    · refine List.pairwise_cons.mpr ⟨?_, h.group_order⟩
      intro earlier he a ha b hb hr
      -- what a closed group reaches is closed, and the new group was still open
      have hb' := hgroup b (List.mem_mergeSort.mp hb)
      exact (h.reach_closed (h.group_closed earlier he a ha) hr).2 hb'
    · exact h.group_order

/-- Leaving a node from which no older open node is reached: its group is closed. -/
theorem Exploring.leave_closed (h : Exploring g path i seen w w') (hw : Sound g path w)
    (hi : ¬ w.isVisited i) (hseen : Explored g i seen) (hlow : w'.lowOf i = w'.numberOf i) :
    Visit g path i w (w'.leave i) := by
  obtain ⟨new, hs, hnew⟩ := h.stack
  have hs' : w'.stack = (new ++ [i]) ++ w.stack := by simp [hs]
  have hinew : i ∉ new := by
    have hnd := h.sound.stack_nodup
    rw [hs] at hnd
    exact fun hm => (List.nodup_append.mp hnd).2.2 i hm i List.mem_cons_self rfl
  -- the group holds the nodes that were opened since the visit began
  have hmem : ∀ x, x ∈ new ++ [i] ↔ x ∈ w'.stack ∧ ¬ w.isVisited x := by
    intro x
    constructor
    · intro hx
      refine ⟨hs' ▸ List.mem_append_left _ hx, ?_⟩
      rcases List.mem_append.mp hx with hx | hx
      · exact hnew x hx
      · exact List.mem_singleton.mp hx ▸ hi
    · rintro ⟨hx, hxn⟩
      rw [hs'] at hx
      exact (List.mem_append.mp hx).resolve_right (fun hxw => hxn (hw.stack_visited x hxw))
  have hclass : g.IsClass (new ++ [i]) := by
    intro a ha b
    rw [hmem b]
    exact h.region_class hw hi hseen hlow ((hmem a).mp ha) b
  have hout : ∀ a ∈ new ++ [i], ∀ b, g.Edge a b → b ∈ new ++ [i] ∨ w'.IsClosed b := by
    intro a ha b he
    rw [hmem b]
    exact h.region_closed hw hi hseen hlow (Or.inl ((hmem a).mp ha)) he.reach
  rw [leave_eq hs hinew hlow]
  constructor
  case sound => exact h.sound.close hs' (by simp) hw.path_open hclass hout
  case ext =>
    exact ⟨h.ext.visited, h.ext.number, h.ext.low, h.ext.fresh, h.ext.next, [], rfl, by simp⟩
  case visited => exact h.visited_self
  case low_of_closed => exact fun _ => hlow
  case low_of_open => exact fun hm => absurd (hw.stack_visited i hm) hi
  case bound => exact fun x hx hxn => absurd (hw.stack_visited x hx) hxn

theorem leave_of_ne (hlow : w.lowOf i ≠ w.numberOf i) : w.leave i = w := by
  rw [leave, if_neg hlow]

theorem Exploring.leave (h : Exploring g path i seen w w') (hw : Sound g path w)
    (hi : ¬ w.isVisited i) (hseen : Explored g i seen) : Visit g path i w (w'.leave i) := by
  by_cases hlow : w'.lowOf i = w'.numberOf i
  · exact h.leave_closed hw hi hseen hlow
  · rw [leave_of_ne hlow]
    exact h.leave_open hw hi hseen hlow

end Leave

/-- The number of places that have not been visited yet; it bounds the depth of the walk. -/
def unvisited (g : Graph) (w : Walk) : Nat :=
  (List.range g.size).countP (fun i => !w.isVisited i)

theorem unvisited_le_size (g : Graph) (w : Walk) : unvisited g w ≤ g.size := by
  simpa [unvisited] using List.countP_le_length (l := List.range g.size)

/-- Who keeps every visited place visited leaves no more of them unvisited. -/
theorem unvisited_mono (h : ∀ i, w.isVisited i → w'.isVisited i) :
    unvisited g w' ≤ unvisited g w := by
  refine List.countP_mono_left ?_
  intro i _ hi
  by_contra hv
  have := h i (by simpa using hv)
  simp [this] at hi

theorem Extends.unvisited_le (h : Extends w w') : unvisited g w' ≤ unvisited g w :=
  unvisited_mono h.visited

theorem unvisited_enter_lt (hi : i < g.size) (hnew : ¬ w.isVisited i) :
    unvisited g (w.enter i) < unvisited g w := by
  obtain ⟨front, back, hsplit⟩ := List.append_of_mem (List.mem_range.mpr hi)
  have hle : ∀ l : List Nat, l.countP (fun j => !(w.enter i).isVisited j) ≤
      l.countP (fun j => !w.isVisited j) := by
    intro l
    refine List.countP_mono_left ?_
    intro j _ hj
    by_contra hv
    have := (Extends.enter hnew).visited j (by simpa using hv)
    simp [this] at hj
  have hentered : (w.enter i).isVisited i = true := enter_isVisited.mpr (Or.inl rfl)
  have hnot : w.isVisited i = false := by simpa using hnew
  have h1 := hle front
  have h2 := hle back
  simp only [unvisited, hsplit, List.countP_append, List.countP_cons, hentered, hnot]
  simp
  omega

/-- The edges of a node are followed one after the other. -/
theorem Exploring.follow_all {path seen rest : List Nat} {fuel : Nat} (hg : g.Inside)
    (h : Exploring g path i seen w w') (hw : Sound g path w) (hi : ¬ w.isVisited i)
    (hpath : ∀ p ∈ path, g.Reach p i) (hrest : ∀ j ∈ rest, g.Edge i j)
    (hfuel : unvisited g w' ≤ fuel)
    (ih : ∀ (path : List Nat) (j : Nat) (w : Walk), Sound g path w → j < g.size →
      ¬ w.isVisited j → (∀ p ∈ path, g.Reach p j) → unvisited g w ≤ fuel →
      Visit g path j w (visit g fuel j w)) :
    Exploring g path i (seen ++ rest) w (rest.foldl (Walk.follow g fuel i) w') := by
  induction rest generalizing seen w' with
  | nil => simpa using h
  | cons j rest ihr =>
    have hedge := hrest j List.mem_cons_self
    have hreach : ∀ p ∈ i :: path, g.Reach p j := by
      intro p hp
      rcases List.mem_cons.mp hp with rfl | hp
      · exact hedge.reach
      · exact (hpath p hp).trans hedge.reach
    have hv : ¬ w'.isVisited j → Visit g (i :: path) j w' (visit g fuel j w') :=
      fun hj => ih (i :: path) j w' h.sound (hg i j hedge).2 hj hreach hfuel
    have hstep := h.follow hw hi hedge hv
    have hmono : unvisited g (Walk.follow g fuel i w' j) ≤ unvisited g w' := by
      unfold Walk.follow
      by_cases hj : w'.isVisited j
      · rw [if_neg (by simp [hj])]
        split <;> exact le_rfl
      · rw [if_pos (by simp [hj])]
        exact (hv hj).ext.unvisited_le
    have := ihr hstep (fun k hk => hrest k (List.mem_cons_of_mem j hk)) (le_trans hmono hfuel)
    simpa using this

/-- A visit of a new node does what it should whenever the fuel covers the nodes that are left. -/
theorem visit_spec (hg : g.Inside) (fuel : Nat) (path : List Nat) (i : Nat) (w : Walk)
    (hw : Sound g path w) (hi : i < g.size) (hnew : ¬ w.isVisited i)
    (hpath : ∀ p ∈ path, g.Reach p i) (hfuel : unvisited g w ≤ fuel) :
    Visit g path i w (visit g fuel i w) := by
  induction fuel generalizing path i w with
  | zero =>
    -- a new node is one that is left, so the fuel cannot be used up
    have := unvisited_enter_lt hi hnew
    omega
  | succ fuel ih =>
    have hstart := Exploring.enter hw hi hnew hpath
    have hless := unvisited_enter_lt hi hnew
    have hrest : ∀ j ∈ g.neighbours i, g.Edge i j := fun j hj => (mem_neighbours_iff.mp hj).2.2
    have hall := hstart.follow_all hg hw hnew hpath hrest (by omega) ih
    rw [visit_succ]
    refine hall.leave hw hnew ?_
    intro j he hji
    exact List.mem_append_right _ (mem_neighbours_iff.mpr ⟨(hg i j he).2, hji, he⟩)

theorem Sound.empty (g : Graph) : Sound g [] {} := by
  have hnone : ∀ i, ¬ ({} : Walk).isVisited i := by
    intro i
    simp [isVisited]
  refine ⟨fun i hi => absurd hi (hnone i), fun i hi => absurd hi (hnone i),
    fun i _ hi => absurd hi (hnone i), by simp, by simp, by simp,
    fun i hi => absurd hi (hnone i), by simp, by simp, fun i _ hi => absurd hi.1 (hnone i),
    by simp, by simp, by simp, fun i hi => absurd hi.1 (hnone i), by simp⟩

/-- One turn of the outer loop: a node that has not been visited is visited. -/
def visitNew (g : Graph) (w : Walk) (i : Nat) : Walk :=
  if w.isVisited i then w else visit g g.size i w

theorem Sound.visitNew (hg : g.Inside) (hw : Sound g [] w) (hi : i < g.size) :
    Sound g [] (visitNew g w i) ∧ Extends w (visitNew g w i) ∧ (visitNew g w i).isVisited i := by
  unfold Walk.visitNew
  by_cases hv : w.isVisited i
  · rw [if_pos hv]
    exact ⟨hw, Extends.refl w, hv⟩
  · rw [if_neg hv]
    have h := visit_spec hg g.size [] i w hw hi hv (by simp) (unvisited_le_size g w)
    exact ⟨h.sound, h.ext, h.visited⟩

theorem Sound.visitNew_all (hg : g.Inside) (is : List Nat) (his : ∀ i ∈ is, i < g.size)
    (hw : Sound g [] w) :
    Sound g [] (is.foldl (Walk.visitNew g) w) ∧ Extends w (is.foldl (Walk.visitNew g) w) ∧
      ∀ i ∈ is, (is.foldl (Walk.visitNew g) w).isVisited i := by
  induction is generalizing w with
  | nil => exact ⟨hw, Extends.refl w, by simp⟩
  | cons i rest ih =>
    obtain ⟨h1, e1, v1⟩ := hw.visitNew hg (his i List.mem_cons_self)
    obtain ⟨h2, e2, v2⟩ := ih (fun j hj => his j (List.mem_cons_of_mem i hj)) h1
    refine ⟨h2, e1.trans e2, ?_⟩
    intro j hj
    rcases List.mem_cons.mp hj with rfl | hj
    · exact e2.visited j v1
    · exact v2 j hj

theorem Sound.all (hg : g.Inside) :
    Sound g [] (all g) ∧ ∀ i, i < g.size → (all g).IsClosed i := by
  obtain ⟨hs, -, hv⟩ := Sound.visitNew_all hg (List.range g.size)
    (fun i hi => List.mem_range.mp hi) (Sound.empty g)
  refine ⟨hs, fun i hi => ⟨hv i (List.mem_range.mpr hi), ?_⟩⟩
  -- an open node would lead back to a node that is being visited, and there is none left
  intro ho
  obtain ⟨p, hp, -⟩ := hs.back i ho
  simp at hp

end Walk

/-- A component is a class of more than one place, in ascending order. -/
theorem components_class (hg : g.Inside) {group : List Nat} (h : group ∈ g.components) :
    g.IsClass group ∧ group.Pairwise (· < ·) ∧ 1 < group.length := by
  have hs := (Walk.Sound.all hg).1
  rw [components, List.mem_reverse] at h
  exact ⟨hs.group_class group h, hs.group_sorted group h⟩

/-- The places in components are those of the graph that another place reaches and is reached
from. -/
theorem mem_components_iff (hg : g.Inside) {i : Nat} (hi : i < g.size) :
    (∃ group ∈ g.components, i ∈ group) ↔ ∃ j, j ≠ i ∧ g.Mutual i j := by
  constructor
  · rintro ⟨group, hgr, hmem⟩
    obtain ⟨hclass, hsorted, hlen⟩ := components_class hg hgr
    obtain ⟨j, hj, hji⟩ : ∃ j ∈ group, j ≠ i := by
      match group, hlen, hsorted with
      | a :: b :: rest, _, hsorted =>
        have hab : a < b := (List.pairwise_cons.mp hsorted).1 b List.mem_cons_self
        by_cases hai : a = i
        · exact ⟨b, by simp, by omega⟩
        · exact ⟨a, by simp, hai⟩
    exact ⟨j, hji, (hclass i hmem j).mp hj⟩
  · rintro ⟨j, hji, hm⟩
    obtain ⟨hs, hclosed⟩ := Walk.Sound.all hg
    obtain ⟨group, hgr, hmem⟩ := hs.grouped i (hclosed i hi) j hji hm
    exact ⟨group, by rwa [components, List.mem_reverse], hmem⟩

end FlowScript.Graph
