import FlowScript.Flow.Ports
import FlowScript.Proofs.Script.Names

/-!
# Minted ids

What is drawn from a supply of tokens, and what the ids made of it look like. Ids of nodes are words,
and the id of a port ends in an underscore and a drawn suffix, so a port is known by its suffix.

## Main definitions

- `Supply.shorts` — the next texts of some length
- `suffixOf` — what stands behind the last underscore
- `Matched` — ports for new names, each kept from the existing ones or minted

## Main results

- `newPortsFrom_spec` — the ports of a new node have the drawn suffixes
- `reconcileFrom_matched` — ports that are derived again are kept or minted
-/

namespace FlowScript

open Text

theorem isWordChar_hexDigit : ∀ k < 16, isWordChar (hexDigit k) = true ∧ hexDigit k ≠ '_' := by
  decide

theorem mem_hex {width n : Nat} {c : Char} (h : c ∈ hex width n) : ∃ k < 16, c = hexDigit k := by
  induction width generalizing n with
  | zero => cases h
  | succ width ih =>
    rcases List.mem_append.mp h with h | h
    · exact ih h
    · exact ⟨n % 16, Nat.mod_lt _ (by decide), List.mem_singleton.mp h⟩

namespace Supply

/-- The next `count` texts of `n` digits. -/
def shorts (n : Nat) : (count : Nat) → Supply → List String
  | 0, _ => []
  | count + 1, s => (s.nextShort n).1 :: shorts n count (s.nextShort n).2

/-- The supply after `count` more tokens. -/
def after (count : Nat) (s : Supply) : Supply :=
  { s with drawn := s.drawn + count }

variable {s : Supply} {n : Nat}

@[simp]
theorem after_zero (s : Supply) : s.after 0 = s :=
  rfl

@[simp]
theorem after_after (i j : Nat) (s : Supply) : (s.after i).after j = s.after (i + j) := by
  simp [after, Nat.add_assoc]

@[simp]
theorem after_drawn (count : Nat) (s : Supply) : (s.after count).drawn = s.drawn + count :=
  rfl

theorem nextId_snd (sort : String) (s : Supply) : (s.nextId sort).2 = s.after 1 :=
  rfl

theorem shorts_succ (n count : Nat) (s : Supply) :
    s.shorts n (count + 1) = (s.nextShort n).1 :: (s.after 1).shorts n count :=
  rfl

theorem shorts_add (n i j : Nat) (s : Supply) :
    s.shorts n (i + j) = s.shorts n i ++ (s.after i).shorts n j := by
  induction i generalizing s with
  | zero => simp [shorts]
  | succ i ih =>
    rw [Nat.succ_add, shorts_succ, shorts_succ, ih, List.cons_append, after_after, Nat.add_comm 1 i]

/-- A drawn text is made of digits. -/
theorem mem_nextShort {c : Char} (h : c ∈ (s.nextShort n).1.toList) :
    isWordChar c = true ∧ c ≠ '_' := by
  have hmem : c ∈ s.next.1 := by
    have h' : c ∈ s.next.1.take n := by simpa [nextShort] using h
    exact List.mem_of_mem_take h'
  obtain ⟨b, -, hc⟩ := List.mem_flatMap.mp hmem
  obtain ⟨k, hk, rfl⟩ := mem_hex hc
  exact isWordChar_hexDigit k hk

theorem isWord_nextId {sort : String} (h : IsWord sort) : IsWord (s.nextId sort).1 :=
  (h.append (by simp [IsWord, isWordChar])).append (fun _ hc => (mem_nextShort hc).1)

end Supply

/-- Tokens that count from one. -/
def countedSupply : Supply :=
  { bytes := fun n => [n / 65536 % 256, n / 256 % 256, n % 256] ++ List.replicate 13 0 }

/-! ## Ports -/

/-- What stands behind the last underscore of a text. -/
def suffixOf (id : String) : String :=
  String.ofList (id.toList.reverse.takeWhile (· != '_')).reverse

theorem suffixOf_append {front suffix : String} (h : '_' ∉ suffix.toList) :
    suffixOf (front ++ "_" ++ suffix) = suffix := by
  have hfree : ∀ c ∈ suffix.toList.reverse, (c != '_') = true := by
    intro c hc
    rw [bne_iff_ne]
    rintro rfl
    exact h (List.mem_reverse.mp hc)
  have hrev : (front ++ "_" ++ suffix).toList.reverse =
      suffix.toList.reverse ++ '_' :: front.toList.reverse := by
    simp
  rw [suffixOf, hrev, List.takeWhile_append_of_pos hfree, List.takeWhile_cons]
  simp

theorem newPort_snd (nodeId : String) (direction : Direction) (name : String) (index : Nat)
    (s : Supply) : (newPort nodeId direction name index s).2 = s.after 1 := by
  unfold newPort
  split
  rfl

/-- The id of a new port ends in the drawn suffix. -/
theorem suffixOf_newPort (nodeId : String) (direction : Direction) (name : String) (index : Nat)
    (s : Supply) :
    suffixOf (newPort nodeId direction name index s).1.id = (s.nextShort 6).1 := by
  have hfree : '_' ∉ (s.nextShort 6).1.toList := fun h => (Supply.mem_nextShort h).2 rfl
  unfold newPort
  split
  exact suffixOf_append hfree

/-- The ports of a new node have the drawn suffixes, one after the other. -/
theorem newPortsFrom_spec (nodeId : String) (direction : Direction) (index : Nat)
    (names : List String) (s : Supply) :
    (newPortsFrom nodeId direction index names s).1.map (fun p => suffixOf p.id) =
        s.shorts 6 names.length ∧
      (newPortsFrom nodeId direction index names s).2 = s.after names.length := by
  induction names generalizing index s with
  | nil => exact ⟨rfl, rfl⟩
  | cons name rest ih =>
    obtain ⟨hports, hsupply⟩ := ih (index + 1) (newPort nodeId direction name index s).2
    rw [newPort_snd] at hports hsupply
    simp only [newPortsFrom, newPort_snd, List.map_cons, List.length_cons]
    refine ⟨?_, ?_⟩
    · rw [suffixOf_newPort, hports, Supply.shorts_succ]
    · rw [hsupply, Supply.after_after, Nat.add_comm]

/-- A port that can be used again is an existing one that is not used. -/
theorem reusable?_spec {existing : List Port} {used : List String} {name : String} {p : Port}
    (h : reusable? existing used name = some p) : p ∈ existing ∧ p.id ∉ used := by
  have hfree : ∀ {test : Port → Bool},
      (existing.filter (fun p => !used.contains p.id)).find? test = some p →
        p ∈ existing ∧ p.id ∉ used := by
    intro test hfind
    have hmem := List.mem_filter.mp (List.mem_of_find?_eq_some hfind)
    exact ⟨hmem.1, by simpa using hmem.2⟩
  unfold reusable? at h
  dsimp only at h
  split at h
  · next found =>
    obtain rfl := Option.some.inj h
    exact hfree found
  · exact hfree h

/-- The ids of the ports that are minted for the names from place `index` on. -/
def mintedFrom (existing : List Port) (direction : Direction) (nodeId : String)
    (used : List String) (index : Nat) : List String → Supply → List String
  | [], _ => []
  | name :: rest, s =>
    match reusable? existing used name with
    | some p => mintedFrom existing direction nodeId (p.id :: used) (index + 1) rest s
    | none =>
      (newPort nodeId direction name index s).1.id ::
        mintedFrom existing direction nodeId used (index + 1) rest (s.after 1)

/-- A port as it is minted for a name. -/
structure Port.MintedFor (p : Port) (name nodeId : String) (direction : Direction) : Prop where
  shown : p.name = name
  source : p.sourceName = name
  node : p.nodeId = nodeId
  side : p.direction = direction

theorem newPort_mintedFor (nodeId : String) (direction : Direction) (name : String) (index : Nat)
    (s : Supply) : (newPort nodeId direction name index s).1.MintedFor name nodeId direction := by
  unfold newPort
  split
  exact ⟨rfl, rfl, rfl, rfl⟩

/-- Ports for a list of names: where a port can be used again it is kept, and elsewhere one is minted
with the next of the given ids. -/
inductive Matched (existing : List Port) (direction : Direction) (nodeId : String) :
    (used names : List String) → List Port → (minted : List String) → Prop
  | nil (used : List String) : Matched existing direction nodeId used [] [] []
  | keep {used names minted : List String} {name : String} {p : Port} {ports : List Port}
      (hp : reusable? existing used name = some p)
      (rest : Matched existing direction nodeId (p.id :: used) names ports minted) :
      Matched existing direction nodeId used (name :: names)
        (p.keptFor name nodeId direction :: ports) minted
  | mint {used names minted : List String} {name : String} {q : Port} {ports : List Port}
      (hnone : reusable? existing used name = none) (hq : q.MintedFor name nodeId direction)
      (rest : Matched existing direction nodeId used names ports minted) :
      Matched existing direction nodeId used (name :: names) (q :: ports) (q.id :: minted)

/-- Ports that are derived again are matched with the names. One token is drawn for each port that is
minted, and its id ends in what was drawn. -/
theorem reconcileFrom_matched (existing : List Port) (direction : Direction) (nodeId : String)
    (used : List String) (index : Nat) (names : List String) (s : Supply) :
    Matched existing direction nodeId used names
        (reconcileFrom existing direction nodeId used index names s).1
        (mintedFrom existing direction nodeId used index names s) ∧
      (reconcileFrom existing direction nodeId used index names s).2 =
        s.after (mintedFrom existing direction nodeId used index names s).length ∧
      (mintedFrom existing direction nodeId used index names s).map suffixOf =
        s.shorts 6 (mintedFrom existing direction nodeId used index names s).length := by
  induction names generalizing used index s with
  | nil => exact ⟨.nil used, rfl, rfl⟩
  | cons name rest ih =>
    unfold reconcileFrom mintedFrom
    cases hreuse : reusable? existing used name with
    | some p =>
      obtain ⟨hports, hsupply, hshorts⟩ := ih (p.id :: used) (index + 1) s
      exact ⟨.keep hreuse hports, hsupply, hshorts⟩
    | none =>
      -- only a port that is minted takes a token
      obtain ⟨hports, hsupply, hshorts⟩ := ih used (index + 1) (s.after 1)
      simp only [newPort_snd, List.map_cons, List.length_cons]
      refine ⟨.mint hreuse (newPort_mintedFor nodeId direction name index s) hports, ?_, ?_⟩
      · rw [hsupply, Supply.after_after, Nat.add_comm]
      · rw [suffixOf_newPort, hshorts, Supply.shorts_succ]

end FlowScript
