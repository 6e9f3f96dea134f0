import FlowScript.Proofs.Graph.Walk

/-!
# The course of the walk

The depth-first walk as a recursion without a bound on its depth, told by the steps it takes. A visit
goes as deep as there are nodes at most, so the walk that is bounded by their number takes exactly
these steps: the recursion ends on every graph, and with the same outcome.

## Main definitions

- `Walk.Follows` — the edges of a node are followed, with all the visits on the way
- `Walk.Visits` — a node is visited
- `Walk.Turns` — the outer loop

## Main results

- `Walk.visits_visit` — a visit of bounded depth is a visit
- `Walk.turns_all` — the whole walk
-/

namespace FlowScript.Graph.Walk

variable {g : Graph} {w w' v : Walk} {i j k : Nat} {rest : List Nat}

/-- The edges of the node `i` to the given nodes are followed one after the other: a new node is
visited first, an open one lowers the low number, a closed one changes nothing. -/
inductive Follows (g : Graph) : Nat → List Nat → Walk → Walk → Prop
  | done (i : Nat) (w : Walk) : Follows g i [] w w
  | new {i j : Nat} {rest : List Nat} {w v w' : Walk} (hj : ¬ w.isVisited j)
      (visit : Follows g j (g.neighbours j) (w.enter j) v)
      (more : Follows g i rest ((v.leave j).lower i ((v.leave j).lowOf j)) w') :
      Follows g i (j :: rest) w w'
  | still {i j : Nat} {rest : List Nat} {w w' : Walk} (hj : w.isVisited j) (ho : j ∈ w.stack)
      (more : Follows g i rest (w.lower i (w.numberOf j)) w') : Follows g i (j :: rest) w w'
  | closed {i j : Nat} {rest : List Nat} {w w' : Walk} (hj : w.IsClosed j)
      (more : Follows g i rest w w') : Follows g i (j :: rest) w w'

/-- The node `i` is entered, its edges are followed, and it is left. -/
def Visits (g : Graph) (i : Nat) (w w' : Walk) : Prop :=
  ∃ v, Follows g i (g.neighbours i) (w.enter i) v ∧ w' = v.leave i

/-- The nodes are gone through in order, and those that are new are visited. -/
inductive Turns (g : Graph) : List Nat → Walk → Walk → Prop
  | done (w : Walk) : Turns g [] w w
  | new {i : Nat} {rest : List Nat} {w v w' : Walk} (hi : ¬ w.isVisited i) (visit : Visits g i w v)
      (more : Turns g rest v w') : Turns g (i :: rest) w w'
  | seen {i : Nat} {rest : List Nat} {w w' : Walk} (hi : w.isVisited i)
      (more : Turns g rest w w') : Turns g (i :: rest) w w'

theorem leave_isVisited : (w.leave i).isVisited k = w.isVisited k := by
  unfold leave
  split <;> rfl

theorem lower_isVisited {n : Nat} : (w.lower i n).isVisited k = w.isVisited k :=
  rfl

/-- Nothing that has been visited is forgotten. -/
theorem Follows.visited (h : Follows g i rest w w') : w.isVisited k → w'.isVisited k := by
  induction h with
  | done i w => exact id
  | new hj _ _ ihvisit ihmore =>
    intro hk
    refine ihmore ?_
    rw [lower_isVisited, leave_isVisited]
    exact ihvisit (enter_isVisited.mpr (Or.inr hk))
  | still hj ho _ ih => exact ih
  | closed hj _ ih => exact ih

theorem Visits.visited (h : Visits g i w w') (hk : w.isVisited k) : w'.isVisited k := by
  obtain ⟨v, hv, rfl⟩ := h
  rw [leave_isVisited]
  exact hv.visited (enter_isVisited.mpr (Or.inr hk))

/-- Following edges within a bound on the depth, if that is enough for the visits of new nodes. -/
theorem follows_foldl {fuel : Nat} (ih : ∀ j w, j < g.size → ¬ w.isVisited j →
      unvisited g w ≤ fuel → Visits g j w (visit g fuel j w))
    (hrest : ∀ j ∈ rest, j < g.size) (hfuel : unvisited g w ≤ fuel) :
    Follows g i rest w (rest.foldl (follow g fuel i) w) := by
  induction rest generalizing w with
  | nil => exact .done i w
  | cons j rest ihr =>
    have hmore := fun k hk => hrest k (List.mem_cons_of_mem j hk)
    rw [List.foldl_cons, follow]
    by_cases hj : w.isVisited j
    · rw [if_neg (by simp [hj])]
      by_cases ho : j ∈ w.stack
      · rw [if_pos (by simpa using ho)]
        exact .still hj ho (ihr hmore hfuel)
      · rw [if_neg (by simpa using ho)]
        exact .closed ⟨hj, ho⟩ (ihr hmore hfuel)
    · rw [if_pos (by simp [hj])]
      have hvisit := ih j w (hrest j List.mem_cons_self) hj hfuel
      -- the visit leaves fewer nodes for the edges behind it
      have hle := unvisited_mono (g := g) (fun _ => hvisit.visited)
      obtain ⟨v, hv, heq⟩ := hvisit
      rw [heq] at hle ⊢
      exact .new hj hv (ihr hmore (le_trans hle hfuel))

/-- A visit within a bound that covers the nodes that are left takes the steps of a visit without
one. -/
theorem visits_visit (fuel i : Nat) (w : Walk) (hi : i < g.size) (hnew : ¬ w.isVisited i)
    (hfuel : unvisited g w ≤ fuel) : Visits g i w (visit g fuel i w) := by
  induction fuel generalizing i w with
  | zero =>
    -- a new node is one that is left
    have := unvisited_enter_lt hi hnew
    omega
  | succ fuel ih =>
    have hless := unvisited_enter_lt hi hnew
    refine ⟨_, follows_foldl ih ?_ (by omega), visit_succ g fuel i w⟩
    exact fun j hj => (mem_neighbours_iff.mp hj).1

theorem turns_foldl (hrest : ∀ i ∈ rest, i < g.size) :
    Turns g rest w (rest.foldl (visitNew g) w) := by
  induction rest generalizing w with
  | nil => exact .done w
  | cons i rest ih =>
    have hmore := ih (fun k hk => hrest k (List.mem_cons_of_mem i hk)) (w := visitNew g w i)
    rw [List.foldl_cons]
    by_cases hi : w.isVisited i
    · rw [visitNew, if_pos hi] at hmore ⊢
      exact .seen hi hmore
    · rw [visitNew, if_neg hi] at hmore ⊢
      exact .new hi (visits_visit g.size i w (hrest i List.mem_cons_self) hi
        (unvisited_le_size g w)) hmore

/-- The walk goes through all nodes. -/
theorem turns_all (g : Graph) : Turns g (List.range g.size) {} (all g) :=
  turns_foldl (fun _ hi => List.mem_range.mp hi)

end FlowScript.Graph.Walk
