import FlowScript.Proofs.Flow.Minting
import Mathlib.Data.List.Nodup

/-!
# Matching ports with names

Which existing ports are kept when ports are derived for a list of names. For each name the ports
that fit it are its candidates, and every time the name comes up the next of them is used. Candidates
of different names are different, so nothing that is used for one name is missing for another: each
name keeps as many ports as it can, the first candidates first. What comes out fits its own names, so
matching it again changes nothing.

## Main definitions

- `Port.fits` — a port has the name as its source name or, without one, as its display name
- `candidates` — the ports that fit a name and are not used yet
- `mintedIds` — the ids of the ports that are minted

## Main results

- `Matched.filter_eq` — the ports for one name: its first candidates, and minted ones behind them
- `Matched.nodup` — the ports have different ids
- `reconcileFrom_again` — ports that have their names are found again
- `reconcilePorts_matches` — what becomes of any list of ports
-/

namespace FlowScript

/-- The port has the name as its source name or, if it never had one, as its display name. -/
def Port.fits (p : Port) (name : String) : Bool :=
  p.sourceName == name || (p.sourceName == "" && p.name == name)

theorem Port.fits_iff {p : Port} {name : String} :
    p.fits name = true ↔ p.sourceName = name ∨ (p.sourceName = "" ∧ p.name = name) := by
  simp [Port.fits]

/-- A port fits one name at most. -/
theorem Port.fits_unique {p : Port} {name name' : String} (hname : name ≠ "") (hname' : name' ≠ "")
    (h : p.fits name = true) (h' : p.fits name' = true) : name = name' := by
  rcases fits_iff.mp h with rfl | ⟨hblank, rfl⟩ <;> rcases fits_iff.mp h' with rfl | ⟨hblank', rfl⟩
  · rfl
  · exact absurd hblank' hname
  · exact absurd hblank hname'
  · rfl

/-! ## Candidates -/

/-- The ports that fit a name and are not used yet, those with the source name first. -/
def candidates (existing : List Port) (used : List String) (name : String) : List Port :=
  let free := existing.filter (fun p => !used.contains p.id)
  free.filter (fun p => p.sourceName == name) ++
    free.filter (fun p => p.sourceName == "" && p.name == name)

section Candidates

variable {existing : List Port} {used : List String} {name name' : String} {p q : Port}

/-- The first candidate is used. -/
theorem reusable?_eq_head? (existing : List Port) (used : List String) (name : String) :
    reusable? existing used name = (candidates existing used name).head? := by
  unfold reusable? candidates
  dsimp only
  rw [List.head?_append, List.head?_filter, List.head?_filter]
  split
  · next found => rw [found, Option.some_or]
  · next missing => rw [missing, Option.none_or]

theorem mem_candidates_iff :
    p ∈ candidates existing used name ↔ p ∈ existing ∧ p.id ∉ used ∧ p.fits name = true := by
  simp only [candidates, Port.fits_iff, List.mem_append, List.mem_filter, Bool.and_eq_true,
    beq_iff_eq, List.contains_eq_mem, Bool.not_eq_true', decide_eq_false_iff_not]
  tauto

/-- Once an id is used, the ports that have it are candidates no more. -/
theorem candidates_cons (existing : List Port) (id : String) (used : List String) (name : String) :
    candidates existing (id :: used) name =
      (candidates existing used name).filter (fun p => p.id != id) := by
  have hfree : existing.filter (fun p => !(id :: used).contains p.id) =
      (existing.filter (fun p => !used.contains p.id)).filter (fun p => p.id != id) := by
    rw [List.filter_filter]
    refine List.filter_congr ?_
    intro p _
    simp [bne, beq_eq_decide]
  simp only [candidates, hfree, List.filter_append]
  exact congrArg₂ (· ++ ·) (List.filter_comm ..) (List.filter_comm ..)

theorem nodup_candidates (hids : (existing.map (·.id)).Nodup) (hname : name ≠ "") :
    (candidates existing used name).Nodup := by
  have hfree := hids.of_map.filter (fun p : Port => !used.contains p.id)
  refine List.nodup_append.mpr ⟨hfree.filter _, hfree.filter _, ?_⟩
  rintro p hp _ hq rfl
  -- a port with the name as its source name is not one without a source name
  simp only [List.mem_filter, beq_iff_eq, Bool.and_eq_true] at hp hq
  exact hname (hp.2.symm.trans hq.2.1)

theorem candidates_used_head (hids : (existing.map (·.id)).Nodup) (hname : name ≠ "")
    {rest : List Port} (h : candidates existing used name = p :: rest) :
    candidates existing (p.id :: used) name = rest := by
  have hnodup : (candidates existing used name).Nodup := nodup_candidates hids hname
  rw [h] at hnodup
  have hmem : ∀ q ∈ p :: rest, q ∈ existing := fun q hq => (mem_candidates_iff.mp (h ▸ hq)).1
  have hrest : ∀ q ∈ rest, (q.id != p.id) = true := by
    intro q hq
    rw [bne_iff_ne]
    intro hsame
    obtain rfl := List.inj_on_of_nodup_map hids (hmem q (List.mem_cons_of_mem p hq))
      (hmem p List.mem_cons_self) hsame
    exact (List.nodup_cons.mp hnodup).1 hq
  rw [candidates_cons, h, List.filter_cons_of_neg (by simp), List.filter_eq_self.mpr hrest]

theorem candidates_used_other (hids : (existing.map (·.id)).Nodup) (hname : name ≠ "")
    (hname' : name' ≠ "") (hne : name ≠ name') (hp : p ∈ candidates existing used name) :
    candidates existing (p.id :: used) name' = candidates existing used name' := by
  rw [candidates_cons]
  refine List.filter_eq_self.mpr ?_
  intro q hq
  rw [bne_iff_ne]
  intro hsame
  obtain ⟨hpmem, -, hpfits⟩ := mem_candidates_iff.mp hp
  obtain ⟨hqmem, -, hqfits⟩ := mem_candidates_iff.mp hq
  obtain rfl := List.inj_on_of_nodup_map hids hqmem hpmem hsame
  exact hne (Port.fits_unique hname hname' hpfits hqfits)

/-- Before any port is used, the candidates are the ports that fit. -/
theorem length_candidates_nil (hname : name ≠ "") :
    (candidates existing [] name).length = existing.countP (fun p => p.fits name) := by
  have hall : existing.filter (fun p => !([] : List String).contains p.id) = existing :=
    List.filter_eq_self.mpr (fun _ _ => rfl)
  simp only [candidates, hall, List.length_append, ← List.countP_eq_length_filter]
  induction existing with
  | nil => rfl
  | cons p rest ih =>
    have ih' := ih (List.filter_eq_self.mpr (fun _ _ => rfl))
    simp only [List.countP_cons, ← ih']
    by_cases hsource : p.sourceName = name
    · have hnotblank : p.sourceName ≠ "" := hsource ▸ hname
      simp [Port.fits, hsource, hname]
      omega
    · by_cases hblank : p.sourceName = "" ∧ p.name = name
      · simp [Port.fits, hblank.1, hblank.2, Ne.symm hname]
        omega
      · have hfits : p.fits name = false := by
          rw [← Bool.not_eq_true, Port.fits_iff]
          tauto
        simp [hfits, hsource]
        tauto

end Candidates

/-! ## Matched ports -/

theorem Port.keptFor_id (p : Port) (name nodeId : String) (direction : Direction) :
    (p.keptFor name nodeId direction).id = p.id :=
  rfl

theorem Port.keptFor_sourceName (p : Port) (name nodeId : String) (direction : Direction) :
    (p.keptFor name nodeId direction).sourceName = name :=
  rfl

/-- A port that says what it is kept for stays as it is. -/
theorem Port.keptFor_self {p : Port} (hname : p.name ≠ "") :
    p.keptFor p.sourceName p.nodeId p.direction = p := by
  simp [Port.keptFor, hname]

namespace Matched

variable {existing : List Port} {direction : Direction} {nodeId : String}
  {used names minted : List String} {ports : List Port}

theorem sourceNames (h : Matched existing direction nodeId used names ports minted) :
    ports.map (·.sourceName) = names := by
  induction h with
  | nil => rfl
  | keep _ _ ih => rw [List.map_cons, ih, Port.keptFor_sourceName]
  | mint _ hq _ ih => rw [List.map_cons, ih, hq.source]

/-- Every port is an unused one that fits its name, or a minted one. -/
theorem cases_of_mem (h : Matched existing direction nodeId used names ports minted) {q : Port}
    (hq : q ∈ ports) :
    (∃ p ∈ existing, p.id ∉ used ∧ p.fits q.sourceName = true ∧
      q = p.keptFor q.sourceName nodeId direction) ∨
    (q.MintedFor q.sourceName nodeId direction ∧ q.id ∈ minted) := by
  induction h with
  | nil used => cases hq
  | keep hp _ ih =>
    rcases List.mem_cons.mp hq with rfl | hq
    · rw [reusable?_eq_head?] at hp
      obtain ⟨hmem, hused, hfits⟩ := mem_candidates_iff.mp (List.mem_of_head? hp)
      exact Or.inl ⟨_, hmem, hused, hfits, rfl⟩
    · rcases ih hq with ⟨p, hmem, hused, hkept⟩ | hminted
      · exact Or.inl ⟨p, hmem, fun h => hused (List.mem_cons_of_mem _ h), hkept⟩
      · exact Or.inr hminted
  | mint _ hnew _ ih =>
    rcases List.mem_cons.mp hq with rfl | hq
    · exact Or.inr ⟨hnew.source ▸ hnew, List.mem_cons_self⟩
    · rcases ih hq with hkept | ⟨hnew, hid⟩
      · exact Or.inl hkept
      · exact Or.inr ⟨hnew, List.mem_cons_of_mem _ hid⟩

/-- Every port has the given side and node and, if names are not empty, a display name. -/
theorem fields_of_mem (h : Matched existing direction nodeId used names ports minted) {q : Port}
    (hq : q ∈ ports) :
    (q.sourceName ≠ "" → q.name ≠ "") ∧ q.direction = direction ∧ q.nodeId = nodeId := by
  rcases h.cases_of_mem hq with ⟨p, -, -, -, hkept⟩ | ⟨hnew, -⟩
  · rw [hkept]
    refine ⟨?_, rfl, rfl⟩
    intro hname
    by_cases hblank : p.name = ""
    · simpa [Port.keptFor, hblank] using hname
    · simp [Port.keptFor, hblank]
  · exact ⟨fun hname => hnew.shown.symm ▸ hname, hnew.side, hnew.node⟩

/-- Where names are not empty, no port is without a display name. -/
theorem fields_of_named (h : Matched existing direction nodeId used names ports minted)
    (hnames : ∀ name ∈ names, name ≠ "") {q : Port} (hq : q ∈ ports) :
    q.name ≠ "" ∧ q.direction = direction ∧ q.nodeId = nodeId := by
  obtain ⟨hshown, hside⟩ := h.fields_of_mem hq
  exact ⟨hshown (hnames _ (h.sourceNames ▸ List.mem_map_of_mem hq)), hside⟩

/-- When the minted ids differ from each other and from those of the existing ports, all ports have
different ids. -/
theorem nodup (h : Matched existing direction nodeId used names ports minted)
    (hminted : minted.Nodup) (hfresh : ∀ p ∈ existing, p.id ∉ minted) :
    (ports.map (·.id)).Nodup := by
  induction h with
  | nil => exact List.nodup_nil
  | keep hp rest ih =>
    rw [List.map_cons, List.nodup_cons]
    refine ⟨?_, ih hminted hfresh⟩
    intro hmem
    obtain ⟨q, hq, hsame⟩ := List.mem_map.mp hmem
    -- the id is used from here on, so it is not kept again
    rcases rest.cases_of_mem hq with ⟨p', -, hused, -, hkept⟩ | ⟨-, hid⟩
    · rw [hkept] at hsame
      exact hused (hsame ▸ List.mem_cons_self)
    · rw [hsame] at hid
      exact hfresh _ (reusable?_spec hp).1 hid
  | mint _ _ rest ih =>
    rw [List.map_cons, List.nodup_cons]
    refine ⟨?_, ih (List.nodup_cons.mp hminted).2
      (fun p hp h => hfresh p hp (List.mem_cons_of_mem _ h))⟩
    intro hmem
    obtain ⟨q', hq', hsame⟩ := List.mem_map.mp hmem
    rcases rest.cases_of_mem hq' with ⟨p', hp', -, -, hkept⟩ | ⟨-, hid⟩
    · rw [hkept] at hsame
      exact hfresh p' hp' (hsame ▸ List.mem_cons_self)
    · exact (List.nodup_cons.mp hminted).1 (hsame ▸ hid)

/-- The ports for one name are its first candidates, as many as the name comes up, and minted ones
behind them. -/
theorem filter_eq (h : Matched existing direction nodeId used names ports minted)
    (hids : (existing.map (·.id)).Nodup) (hnames : ∀ name ∈ names, name ≠ "") {name : String}
    (hname : name ≠ "") :
    ∃ made, ports.filter (fun q => q.sourceName == name) =
        ((candidates existing used name).take (names.count name)).map
          (fun p => p.keptFor name nodeId direction) ++ made ∧
      ∀ q ∈ made, q.id ∈ minted := by
  induction h with
  | nil used => exact ⟨[], by simp⟩
  | @keep used names minted head p ports hp rest ih =>
    have hhead := hnames head List.mem_cons_self
    obtain ⟨made, hports, hmade⟩ := ih (fun n hn => hnames n (List.mem_cons_of_mem head hn))
    refine ⟨made, ?_, hmade⟩
    rw [reusable?_eq_head?] at hp
    by_cases hsame : head = name
    · subst hsame
      obtain ⟨others, hothers⟩ := List.head?_eq_some_iff.mp hp
      rw [candidates_used_head hids hhead hothers] at hports
      rw [hothers, List.count_cons_self, List.take_succ_cons, List.map_cons, List.cons_append,
        ← hports, List.filter_cons_of_pos (by simp [Port.keptFor])]
    · rw [candidates_used_other hids hhead hname hsame (List.mem_of_head? hp)] at hports
      rw [List.filter_cons_of_neg (by simpa [Port.keptFor] using hsame), hports,
        List.count_cons_of_ne hsame]
  | @mint used names minted head q ports hnone hq rest ih =>
    obtain ⟨made, hports, hmade⟩ := ih (fun n hn => hnames n (List.mem_cons_of_mem head hn))
    by_cases hsame : head = name
    · subst hsame
      -- there is no candidate left, so all ports for the name are minted from here on
      rw [reusable?_eq_head?, List.head?_eq_none_iff] at hnone
      rw [hnone, List.take_nil, List.map_nil, List.nil_append] at hports
      refine ⟨q :: made, ?_, ?_⟩
      · rw [hnone, List.take_nil, List.map_nil, List.nil_append,
          List.filter_cons_of_pos (by simp [hq.source]), hports]
      · intro r hr
        rcases List.mem_cons.mp hr with rfl | hr
        · exact List.mem_cons_self
        · exact List.mem_cons_of_mem _ (hmade r hr)
    · refine ⟨made, ?_, fun r hr => List.mem_cons_of_mem _ (hmade r hr)⟩
      rw [List.filter_cons_of_neg (by simpa [hq.source] using hsame), hports,
        List.count_cons_of_ne hsame]

/-- The minted ids are those of the ports that no existing port has the id of. -/
theorem minted_eq (h : Matched existing direction nodeId used names ports minted)
    (hfresh : ∀ p ∈ existing, p.id ∉ minted) :
    (ports.map (·.id)).filter (fun id => !(existing.map (·.id)).contains id) = minted := by
  induction h with
  | nil => rfl
  | keep hp _ ih =>
    have hmem := List.mem_map_of_mem (f := Port.id) (reusable?_spec hp).1
    rw [List.map_cons, List.filter_cons_of_neg (by simpa [Port.keptFor] using hmem), ih hfresh]
  | @mint used names minted head q ports _ _ _ ih =>
    have hnot : q.id ∉ existing.map (·.id) := by
      intro hmem
      obtain ⟨p, hp, hsame⟩ := List.mem_map.mp hmem
      exact hfresh p hp (hsame ▸ List.mem_cons_self)
    rw [List.map_cons, List.filter_cons_of_pos (by simpa using hnot),
      ih (fun p hp h => hfresh p hp (List.mem_cons_of_mem _ h))]

end Matched

/-! ## Once more -/

/-- Ports that have their names, behind others that are used, are all found again. -/
theorem reconcileFrom_again {front ports : List Port} {direction : Direction} {nodeId : String}
    {used : List String} (hids : (ports.map (·.id)).Nodup)
    (hfields : ∀ q ∈ ports, q.name ≠ "" ∧ q.direction = direction ∧ q.nodeId = nodeId)
    (hfront : ∀ p ∈ front, p.id ∈ used) (hfree : ∀ q ∈ ports, q.id ∉ used) (index : Nat)
    (s : Supply) :
    reconcileFrom (front ++ ports) direction nodeId used index (ports.map (·.sourceName)) s =
      (ports, s) := by
  induction ports generalizing front used index with
  | nil => rfl
  | cons q rest ih =>
    obtain ⟨hname, rfl, rfl⟩ := hfields q List.mem_cons_self
    rw [List.map_cons, List.nodup_cons] at hids
    -- the first port that is not used is the one whose name comes next
    have hunused : (front ++ q :: rest).filter (fun p => !used.contains p.id) = q :: rest := by
      rw [List.filter_append, List.filter_eq_nil_iff.mpr (by simpa using hfront),
        List.filter_eq_self.mpr (by simpa using hfree), List.nil_append]
    have hfound : reusable? (front ++ q :: rest) used q.sourceName = some q := by
      rw [reusable?, hunused]
      simp
    have hrest : reconcileFrom (front ++ [q] ++ rest) q.direction q.nodeId (q.id :: used)
        (index + 1) (rest.map (·.sourceName)) s = (rest, s) := by
      refine ih hids.2 (fun r hr => hfields r (List.mem_cons_of_mem q hr)) ?_ ?_ (index + 1)
      · intro p hp
        rcases List.mem_append.mp hp with hp | hp
        · exact List.mem_cons_of_mem _ (hfront p hp)
        · exact List.mem_singleton.mp hp ▸ List.mem_cons_self
      · intro r hr hmem
        rcases List.mem_cons.mp hmem with hsame | hmem
        · exact hids.1 (hsame ▸ List.mem_map_of_mem hr)
        · exact hfree r (List.mem_cons_of_mem q hr) hmem
    rw [List.append_assoc, List.singleton_append] at hrest
    rw [List.map_cons, reconcileFrom]
    simp only [hfound, hrest, Port.keptFor_self hname]

/-! ## Any list of ports -/

/-- The ids of the ports that are minted for a list of names. -/
def mintedIds (existing : List (Option Port)) (names : List String) (direction : Direction)
    (nodeId : String) (s : Supply) : List String :=
  mintedFrom (existing.filterMap (fun p => p)) direction nodeId [] 0 names s

theorem reconcilePorts_matched (existing : List (Option Port)) (names : List String)
    (direction : Direction) (nodeId : String) (s : Supply) :
    Matched (existing.filterMap (fun p => p)) direction nodeId [] names
      (reconcilePorts existing names direction nodeId s).1
      (mintedIds existing names direction nodeId s) :=
  (reconcileFrom_matched _ direction nodeId [] 0 names s).1

/-- One token is drawn for each minted port. -/
theorem reconcilePorts_snd (existing : List (Option Port)) (names : List String)
    (direction : Direction) (nodeId : String) (s : Supply) :
    (reconcilePorts existing names direction nodeId s).2 =
      s.after (mintedIds existing names direction nodeId s).length :=
  (reconcileFrom_matched _ direction nodeId [] 0 names s).2.1

theorem reconcilePorts_again {ports : List Port} {direction : Direction} {nodeId : String}
    (hids : (ports.map (·.id)).Nodup)
    (hfields : ∀ q ∈ ports, q.name ≠ "" ∧ q.direction = direction ∧ q.nodeId = nodeId)
    (s : Supply) :
    reconcilePorts (ports.map some) (ports.map (·.sourceName)) direction nodeId s = (ports, s) := by
  have h : reconcileFrom ([] ++ ports) direction nodeId [] 0 (ports.map (·.sourceName)) s =
      (ports, s) := reconcileFrom_again hids hfields (by simp) (by simp) 0 s
  simpa [reconcilePorts, List.filterMap_map, Function.comp_def] using h

/-- Ports that were matched with names are all found again. -/
theorem Matched.again {existing : List Port} {direction : Direction} {nodeId : String}
    {names minted : List String} {ports : List Port}
    (h : Matched existing direction nodeId [] names ports minted)
    (hnames : ∀ name ∈ names, name ≠ "") (hids : (ports.map (·.id)).Nodup) (s : Supply) :
    reconcilePorts (ports.map some) names direction nodeId s = (ports, s) := by
  have hagain := reconcilePorts_again hids (fun q hq => h.fields_of_named hnames hq) s
  rwa [h.sourceNames] at hagain

/-- Where all ports are found again, none is minted. -/
theorem mintedIds_eq_nil {existing : List (Option Port)} {names : List String}
    {direction : Direction} {nodeId : String} {s : Supply} {ports : List Port}
    (h : reconcilePorts existing names direction nodeId s = (ports, s)) :
    mintedIds existing names direction nodeId s = [] := by
  have hsupply := reconcilePorts_snd existing names direction nodeId s
  rw [h] at hsupply
  have hdrawn : s.drawn = s.drawn + (mintedIds existing names direction nodeId s).length :=
    congrArg Supply.drawn hsupply
  exact List.length_eq_zero_iff.mp (by omega)

/-- How many ports for a name have the id of an existing one. -/
theorem Matched.count_kept {existing : List Port} {direction : Direction} {nodeId : String}
    {names minted : List String} {ports : List Port}
    (h : Matched existing direction nodeId [] names ports minted)
    (hids : (existing.map (·.id)).Nodup) (hnames : ∀ name ∈ names, name ≠ "")
    (hfresh : ∀ p ∈ existing, p.id ∉ minted) {name : String} (hname : name ≠ "") :
    ports.countP (fun q => q.sourceName == name && (existing.map (·.id)).contains q.id) =
      min (names.count name) (existing.countP (fun p => p.fits name)) := by
  obtain ⟨made, hports, hmade⟩ := h.filter_eq hids hnames hname
  have hsplit : ports.countP (fun q => q.sourceName == name && (existing.map (·.id)).contains q.id) =
      (ports.filter (fun q => q.sourceName == name)).countP
        (fun q => (existing.map (·.id)).contains q.id) := by
    rw [List.countP_filter]
    exact List.countP_congr (by simp [and_comm])
  have hkept : ∀ q ∈ ((candidates existing [] name).take (names.count name)).map
      (fun p => p.keptFor name nodeId direction), (existing.map (·.id)).contains q.id = true := by
    intro q hq
    obtain ⟨p, hp, rfl⟩ := List.mem_map.mp hq
    have hmem := (mem_candidates_iff.mp (List.mem_of_mem_take hp)).1
    simpa [Port.keptFor] using ⟨p, hmem, rfl⟩
  have hnew : ∀ q ∈ made, ¬ (existing.map (·.id)).contains q.id = true := by
    intro q hq hmem
    obtain ⟨p, hp, hsame⟩ := List.mem_map.mp (by simpa using hmem : q.id ∈ existing.map (·.id))
    exact hfresh p hp (hsame ▸ hmade q hq)
  rw [hsplit, hports, List.countP_append, List.countP_eq_length.mpr hkept,
    List.countP_eq_zero.mpr hnew, List.length_map, List.length_take, length_candidates_nil hname,
    Nat.add_zero]

/-- Ports are derived for names that are not empty, and what is minted has ids of its own. Then there
is a port for each name, in order, with that source name, a display name, and the given side and node;
the ports have different ids; and no port is minted when they are derived once more. If the existing
ports have different ids, as many of them are kept for a name as fit it, unless the name comes up less
often. One token is drawn for each minted port, and the others have the ids of existing ones. -/
theorem reconcilePorts_matches (existing : List (Option Port)) (names : List String)
    (direction : Direction) (nodeId : String) (s : Supply) (hnames : ∀ name ∈ names, name ≠ "")
    (hminted : (mintedIds existing names direction nodeId s).Nodup)
    (hfresh : ∀ p ∈ existing.filterMap (fun p => p),
      p.id ∉ mintedIds existing names direction nodeId s) :
    let old := existing.filterMap (fun p => p)
    let ports := (reconcilePorts existing names direction nodeId s).1
    ports.map (·.sourceName) = names ∧
    (∀ q ∈ ports, q.name ≠ "" ∧ q.direction = direction ∧ q.nodeId = nodeId) ∧
    (ports.map (·.id)).Nodup ∧
    ((old.map (·.id)).Nodup → ∀ name ∈ names,
      ports.countP (fun q => q.sourceName == name && (old.map (·.id)).contains q.id) =
        min (names.count name) (old.countP (fun p => p.fits name))) ∧
    (∀ s', reconcilePorts (ports.map some) names direction nodeId s' = (ports, s')) ∧
    (ports.map (·.id)).filter (fun id => !(old.map (·.id)).contains id) =
      mintedIds existing names direction nodeId s ∧
    (reconcilePorts existing names direction nodeId s).2 =
      s.after (mintedIds existing names direction nodeId s).length := by
  intro old ports
  have h := reconcilePorts_matched existing names direction nodeId s
  have hnodup := h.nodup hminted hfresh
  refine ⟨h.sourceNames, fun q hq => h.fields_of_named hnames hq, hnodup, ?_,
    h.again hnames hnodup, h.minted_eq hfresh, reconcilePorts_snd existing names direction nodeId s⟩
  exact fun hids name hname => h.count_kept hids hnames hfresh (hnames name hname)

/-- Two ports that were called `a`, one of them renamed, a port that only has a display name, and one
without any. -/
def mixedPorts : List (Option Port) :=
  [some { id := "p1", name := "Left", sourceName := "a" }, none, some { id := "p2", name := "b" },
    some { id := "p3", sourceName := "a", nodeId := "other" }, some { id := "p4" }]

/-- Both ports called `a` are kept and a third one is minted. -/
theorem mixedPorts_matches :
    (∀ name ∈ ["a", "b", "a", "c", "a"], name ≠ "") ∧
    (mintedIds mixedPorts ["a", "b", "a", "c", "a"] .input "n" countedSupply).Nodup ∧
    (∀ p ∈ mixedPorts.filterMap (fun p => p),
      p.id ∉ mintedIds mixedPorts ["a", "b", "a", "c", "a"] .input "n" countedSupply) ∧
    (reconcilePorts mixedPorts ["a", "b", "a", "c", "a"] .input "n" countedSupply).1.countP
      (fun q => q.sourceName == "a" && ["p1", "p2", "p3", "p4"].contains q.id) = 2 ∧
    mintedIds mixedPorts ["a", "b", "a", "c", "a"] .input "n" countedSupply =
      ["port_in_n_c_000001", "port_in_n_a_000002"] := by
  have hnames : ∀ name ∈ ["a", "b", "a", "c", "a"], name ≠ "" := by decide
  have hminted :
      (mintedIds mixedPorts ["a", "b", "a", "c", "a"] .input "n" countedSupply).Nodup := by
    decide +kernel
  have hfresh : ∀ p ∈ mixedPorts.filterMap (fun p => p),
      p.id ∉ mintedIds mixedPorts ["a", "b", "a", "c", "a"] .input "n" countedSupply := by
    decide +kernel
  obtain ⟨-, -, -, hcount, -⟩ :=
    reconcilePorts_matches mixedPorts _ .input "n" countedSupply hnames hminted hfresh
  exact ⟨hnames, hminted, hfresh, hcount (by decide) "a" (by decide), by decide +kernel⟩

end FlowScript
