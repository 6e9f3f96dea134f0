import FlowScript.Proofs.Script.CallSyntax
import Mathlib.Data.List.Nodup
import Mathlib.Data.List.TakeWhile

/-!
# What calls bind

The parameters of a function are filled by position, by name, from defaults, or with what is left
over. A node passes its wired inputs in order, and by name from the first open input or a bare star
on. That gives each parameter its variable, and `None` where there is none, for most parameter lists
and most choices of wires, and this module says exactly for which.

## Main definitions

- `ParameterList`, `ParameterList.entries` — the parameters of a function, and how they are written
- `ParameterList.bindCall` — the values that a call gives to the parameters
- `ParameterList.intended` — the values that the wires ask for
- `ParameterList.Passable` — where positional-only parameters, spread values and keyword-only
  parameters are wired in a way that the call can tell

## Main results

- `passed_entries` — what is passed for a parameter list, part by part
- `ParameterList.bindCall_eq_intended_iff` — when a call binds what the wires ask for
- `call_binds_iff` — the same for the lines of a node
-/

namespace FlowScript.Script

/-! ## Parameter lists -/

/-- The parameters of a function, in the order of the fields. -/
structure ParameterList where
  positionalOnly : List String := []
  ordinary : List String := []
  variadic : Option String := none
  keywordOnly : List String := []
  keywords : Option String := none
  isName_of_mem : ∀ n ∈ positionalOnly ++ ordinary ++ keywordOnly ++ variadic.toList
    ++ keywords.toList, isName n = true
  nodup : (positionalOnly ++ ordinary ++ keywordOnly ++ variadic.toList ++ keywords.toList).Nodup

namespace ParameterList

variable (l : ParameterList)

/-- The parameters that take one value. -/
def named : List String := l.positionalOnly ++ l.ordinary ++ l.keywordOnly

/-- The parameters that a positional argument fills, in order. -/
def slots : List String := l.positionalOnly ++ l.ordinary

/-- The parameters that an argument can name. -/
def nameable : List String := l.ordinary ++ l.keywordOnly

/-- A slash closes the positional-only parameters. -/
def slash : List Entry :=
  if l.positionalOnly = [] then [] else [.slash]

/-- The starred parameter. A bare star opens the keyword-only parameters where there is none. -/
def star : List Entry :=
  match l.variadic with
  | some n => [.variadic n]
  | none => if l.keywordOnly = [] then [] else [.bareStar]

/-- The parameter with two stars. -/
def doubleStar : List Entry :=
  (l.keywords.map .keywords).toList

/-- The entries of a parameter list. -/
def entries : List Entry :=
  l.positionalOnly.map .named ++ l.slash ++ l.ordinary.map .named ++ l.star
    ++ l.keywordOnly.map .named ++ l.doubleStar

end ParameterList

/-! ## Binding -/

/-- What a call finds when it is made: the value of each variable, its items, and its entries where
it is a mapping. -/
structure Store (V : Type) where
  none : V
  value : String → V
  items : String → List V
  entries : String → List (String × V)

/-- What the parameters of a function hold. -/
structure Binding (V : Type) where
  /-- The parameters that take one value. -/
  values : List (String × V)
  /-- What the starred parameter holds. -/
  rest : List V
  /-- What the parameter with two stars holds. -/
  extra : List (String × V)
  deriving DecidableEq

variable {V : Type}

def Operand.value (store : Store V) : Operand → V
  | .none => store.none
  | .var name => store.value name

/-- The values that an argument passes by position. -/
def Actual.byPosition (store : Store V) : Actual → List V
  | .positional v => [v.value store]
  | .spread name => store.items name
  | .keyword _ _ | .spreadNamed _ => []

/-- The values that an argument passes by name. -/
def Actual.byName (store : Store V) : Actual → List (String × V)
  | .keyword n v => [(n, v.value store)]
  | .spreadNamed name => store.entries name
  | .positional _ | .spread _ => []

/-- One argument may stand somewhere before another. -/
def Actual.mayPrecede : Actual → Actual → Bool
  | .keyword _ _, .positional _ => false
  | .spreadNamed _, .positional _ => false
  | .spreadNamed _, .spread _ => false
  | _, _ => true

namespace ParameterList

variable (l : ParameterList)

/-- Fills the parameters: by position as far as there are values, then by name, then from defaults.
Positional values that are left over need a starred parameter, names that no parameter has need one
with two stars, and no parameter is filled twice. -/
def bind (default? : String → Option V) (positional : List V) (byName : List (String × V)) :
    Option (Binding V) :=
  let filled := l.slots.zip positional
  let rest := positional.drop l.slots.length
  let extra := byName.filter (fun (n, _) => n ∉ l.nameable)
  if (rest.isEmpty ∨ l.variadic.isSome) ∧ (extra.isEmpty ∨ l.keywords.isSome)
      ∧ (byName.map Prod.fst).Nodup
      ∧ ∀ n ∈ byName.map Prod.fst, n ∈ l.nameable → n ∉ filled.map Prod.fst then
    (l.named.mapM (fun n =>
      (((filled.lookup n).or (if n ∈ l.nameable then byName.lookup n else none)).or
        (default? n)).map (fun v => (n, v)))).map (fun values => ⟨values, rest, extra⟩)
  else none

/-- The values that the arguments of a call give to the parameters. -/
def bindCall (default? : String → Option V) (store : Store V) (actuals : List Actual) :
    Option (Binding V) :=
  if actuals.Pairwise (fun a b => a.mayPrecede b = true) then
    l.bind default? (actuals.flatMap (·.byPosition store)) (actuals.flatMap (·.byName store))
  else none

end ParameterList

/-! ## What the wires ask for -/

section Sources

variable (source : String → Option String) (store : Store V)

/-- The value that a source gives: its variable, and `None` where there is none. -/
def operandOf (source : Option String) : Operand :=
  match source with
  | none => .none
  | some v => .var v

namespace ParameterList

variable (l : ParameterList)

/-- The source of the starred parameter. -/
def spreadSource : Option String :=
  l.variadic.bind (fun n => source ("*" ++ n))

/-- The source of the parameter with two stars. -/
def spreadNamedSource : Option String :=
  l.keywords.bind (fun n => source ("**" ++ n))

/-- Every parameter holds the variable of its source, starred ones its items or entries, and `None`
or nothing where there is no source. -/
def intended : Binding V where
  values := l.named.map (fun n => (n, (operandOf (source n)).value store))
  rest := (l.spreadSource source).toList.flatMap store.items
  extra := (l.spreadNamedSource source).toList.flatMap store.entries

/-- The mapping for the parameter with two stars has different keys, and none that names a parameter
of its own. -/
def Fits : Prop :=
  ∀ v ∈ l.spreadNamedSource source, ((store.entries v).map Prod.fst).Nodup ∧
    ∀ n ∈ (store.entries v).map Prod.fst, n ∉ l.nameable

/-- All positional-only parameters are wired. A starred parameter is wired only if all before it are,
and the first keyword-only parameter behind it only if one before it is not. -/
structure Passable : Prop where
  positionalOnly : ∀ n ∈ l.positionalOnly, source n ≠ none
  spread : l.spreadSource source ≠ none → ∀ n ∈ l.ordinary, source n ≠ none
  keywordOnly : l.variadic ≠ none → ∀ n ∈ l.keywordOnly.head?, source n ≠ none →
    ∃ m ∈ l.ordinary, source m = none

end ParameterList

/-! ## What is passed, part by part -/

theorem passed_append (keyword : Bool) (front back : List Entry) :
    passed source keyword (front ++ back) = passed source keyword front ++
      passed source (keyword || front.any (fun e => e.turnsKeyword (source e.spelled))) back := by
  induction front generalizing keyword with
  | nil => simp [passed]
  | cons e front ih =>
    simp only [List.cons_append, passed, ih, List.append_assoc, List.any_cons, Bool.or_assoc]

/-- Named parameters are passed by position up to the first one without a source. -/
theorem passed_named (keyword : Bool) (names : List String) :
    passed source keyword (names.map .named) =
      (if keyword then [] else names.takeWhile (fun n => (source n).isSome)).map
          (fun n => .positional (operandOf (source n)))
        ++ (if keyword then names else names.dropWhile (fun n => (source n).isSome)).map
          (fun n => .keyword n (operandOf (source n))) := by
  induction names generalizing keyword with
  | nil => cases keyword <;> rfl
  | cons n names ih =>
    rw [List.map_cons, passed, ih]
    cases hs : source n with
    | none => cases keyword <;> simp [Entry.passed?, Entry.turnsKeyword, Entry.spelled, hs, operandOf]
    | some v => cases keyword <;> simp [Entry.passed?, Entry.turnsKeyword, Entry.spelled, hs, operandOf]

theorem any_turnsKeyword_named (names : List String) :
    (names.map Entry.named).any (fun e => e.turnsKeyword (source e.spelled)) =
      names.any (fun n => (source n).isNone) := by
  rw [List.any_map]
  rfl

/-- Behind the ordinary parameters everything is passed by name. -/
def ParameterList.turned (l : ParameterList) : Bool :=
  l.slots.any (fun n => (source n).isNone) || l.variadic.isNone

namespace ParameterList

variable (l : ParameterList)

/-- A slash passes nothing. -/
theorem passed_slots :
    passed source false (l.positionalOnly.map .named ++ l.slash ++ l.ordinary.map .named) =
      passed source false (l.slots.map .named) := by
  rw [slots, List.map_append, passed_append, passed_append, passed_append, slash]
  split <;> simp [passed, Entry.passed?, Entry.turnsKeyword]

theorem any_turnsKeyword_slots :
    (l.positionalOnly.map Entry.named ++ l.slash ++ l.ordinary.map Entry.named).any
      (fun e => e.turnsKeyword (source e.spelled)) = l.slots.any (fun n => (source n).isNone) := by
  rw [slots, List.any_append, List.any_append, any_turnsKeyword_named, any_turnsKeyword_named,
    List.any_append, slash]
  split <;> simp [Entry.turnsKeyword]

theorem passed_star (keyword : Bool) :
    passed source keyword l.star = (l.spreadSource source).toList.map .spread := by
  cases hl : l.variadic with
  | none =>
    by_cases hk : l.keywordOnly = [] <;> simp [passed, star, spreadSource, hl, hk, Entry.passed?]
  | some n =>
    cases hs : source ("*" ++ n) <;>
      simp [passed, star, spreadSource, hl, Entry.passed?, Entry.spelled, hs]

theorem passed_doubleStar (keyword : Bool) :
    passed source keyword l.doubleStar =
      (l.spreadNamedSource source).toList.map .spreadNamed := by
  cases hl : l.keywords with
  | none => simp [passed, doubleStar, spreadNamedSource, hl]
  | some n =>
    cases hs : source ("**" ++ n) <;>
      simp [passed, doubleStar, spreadNamedSource, hl, Entry.passed?, Entry.spelled, hs]

/-- A bare star stands only before keyword-only parameters. -/
theorem any_turnsKeyword_eq_turned (hk : l.keywordOnly ≠ []) :
    (l.slots.any (fun n => (source n).isNone)
      || l.star.any (fun e => e.turnsKeyword (source e.spelled))) = l.turned source := by
  cases hl : l.variadic <;> simp [star, turned, hl, hk, Entry.turnsKeyword]

end ParameterList

/-- What is passed for a parameter list: positional arguments up to the first open input, the others
by name, and the spread values behind each. -/
theorem passed_entries (l : ParameterList) :
    passed source false l.entries =
      (l.slots.takeWhile (fun n => (source n).isSome)).map
          (fun n => .positional (operandOf (source n)))
        ++ (l.slots.dropWhile (fun n => (source n).isSome)).map
          (fun n => .keyword n (operandOf (source n)))
        ++ (l.spreadSource source).toList.map .spread
        ++ (if l.turned source then [] else l.keywordOnly.takeWhile (fun n => (source n).isSome)).map
          (fun n => .positional (operandOf (source n)))
        ++ (if l.turned source then l.keywordOnly
            else l.keywordOnly.dropWhile (fun n => (source n).isSome)).map
          (fun n => .keyword n (operandOf (source n)))
        ++ (l.spreadNamedSource source).toList.map .spreadNamed := by
  rw [ParameterList.entries, passed_append, passed_append, passed_append, l.passed_slots,
    l.passed_star, l.passed_doubleStar, passed_named, List.any_append, l.any_turnsKeyword_slots,
    Bool.false_or]
  by_cases hk : l.keywordOnly = []
  · simp [hk, passed]
  · rw [l.any_turnsKeyword_eq_turned source hk, passed_named]
    simp

end Sources

/-! ## What is bound -/

theorem flatMap_const_nil {α β : Type} (as : List α) : as.flatMap (fun _ => ([] : List β)) = [] :=
  List.flatMap_eq_nil_iff.mpr (fun _ _ => rfl)

namespace ParameterList

variable {l : ParameterList}

theorem named_nodup : l.named.Nodup :=
  (List.nodup_append.mp (List.nodup_append.mp l.nodup).1).1

theorem not_mem_nameable {n : String} (h : n ∈ l.positionalOnly) : n ∉ l.nameable := by
  have hnodup : (l.positionalOnly ++ l.nameable).Nodup := by
    simpa [named, nameable] using l.named_nodup
  intro hn
  exact (List.nodup_append.mp hnodup).2.2 n h n hn rfl

/-- What a successful call binds beside single values, and what it has checked. -/
theorem bind_cases {default? : String → Option V} {positional : List V} {byName : List (String × V)}
    {b : Binding V} (h : l.bind default? positional byName = some b) :
    b.rest = positional.drop l.slots.length ∧
    b.extra = byName.filter (fun (n, _) => n ∉ l.nameable) ∧
    ∀ n ∈ byName.map Prod.fst, n ∈ l.nameable → n ∉ (l.slots.zip positional).map Prod.fst := by
  simp only [bind] at h
  split at h
  · next hchecks =>
    rw [Option.map_eq_some_iff] at h
    obtain ⟨values, -, rfl⟩ := h
    exact ⟨rfl, rfl, hchecks.2.2.2⟩
  · cases h

/-- Each parameter gets its value from the slots that are filled by position, and by name from the
first that is not. -/
theorem values_of_parts (default? : String → Option V) {value : String → V}
    {front back : List String} (entries : List (String × V)) (hnamed : l.named = front ++ back)
    (hback : ∀ n ∈ back, n ∈ l.nameable) :
    l.named.mapM (fun n =>
      ((((front.map (fun n => (n, value n))).lookup n).or
        (if n ∈ l.nameable then (back.map (fun n => (n, value n)) ++ entries).lookup n
        else none)).or (default? n)).map (fun v => (n, v))) =
      some (l.named.map (fun n => (n, value n))) := by
  obtain ⟨-, -, hapart⟩ := List.nodup_append.mp (hnamed ▸ l.named_nodup)
  refine mapM_eq_some_map ?_
  intro n hn
  rw [hnamed] at hn
  rcases List.mem_append.mp hn with hn | hn
  · rw [List.lookup_graph value hn]
    rfl
  · have hnone : (front.map (fun n => (n, value n))).lookup n = none := by
      rw [List.lookup_eq_none_iff]
      intro e he
      obtain ⟨m, hm, rfl⟩ := List.mem_map.mp he
      simpa using (hapart m hm n hn).symm
    rw [hnone, if_pos (hback n hn), List.lookup_append, List.lookup_graph value hn]
    rfl

/-- The names that no parameter has are those of the spread entries. -/
theorem extra_of_parts {value : String → V} {back : List String} {entries : List (String × V)}
    (hback : ∀ n ∈ back, n ∈ l.nameable) (hfree : ∀ n ∈ entries.map Prod.fst, n ∉ l.nameable) :
    (back.map (fun n => (n, value n)) ++ entries).filter (fun (n, _) => n ∉ l.nameable) =
      entries := by
  rw [List.filter_append, List.filter_eq_nil_iff.mpr, List.filter_eq_self.mpr, List.nil_append]
  · rintro ⟨n, v⟩ hn
    simpa using hfree n (List.mem_map_of_mem hn)
  · intro e he
    obtain ⟨n, hn, rfl⟩ := List.mem_map.mp he
    simpa using hback n hn

/-- Slots that are filled from the front, the others by name, and what is left over. -/
theorem bind_of_parts (default? : String → Option V) {value : String → V}
    {front back : List String} {items : List V} {entries : List (String × V)}
    (hslots : l.slots = front ++ back) (hback : ∀ n ∈ back, n ∈ l.ordinary)
    (hitems : back = [] ∨ items = []) (hrest : items ≠ [] → l.variadic.isSome = true)
    (hextra : entries ≠ [] → l.keywords.isSome = true) (hkeys : (entries.map Prod.fst).Nodup)
    (hfree : ∀ n ∈ entries.map Prod.fst, n ∉ l.nameable) :
    l.bind default? (front.map value ++ items)
        ((back ++ l.keywordOnly).map (fun n => (n, value n)) ++ entries) =
      some ⟨l.named.map (fun n => (n, value n)), items, entries⟩ := by
  have hnamed : l.named = front ++ (back ++ l.keywordOnly) := by
    rw [named, ← slots, hslots, List.append_assoc]
  obtain ⟨-, hlater, hapart⟩ := List.nodup_append.mp (hnamed ▸ l.named_nodup)
  have hnameable : ∀ n ∈ back ++ l.keywordOnly, n ∈ l.nameable := fun n hn =>
    List.mem_append.mpr ((List.mem_append.mp hn).imp_left (hback n))
  have hfilled : l.slots.zip (front.map value ++ items) = front.map (fun n => (n, value n)) := by
    rw [hslots, List.zip_append (by simp)]
    have hnil : back.zip items = [] := by
      rcases hitems with rfl | rfl <;> simp
    rw [hnil, List.append_nil, ← List.map_prod_left_eq_zip]
  have hdropped : (front.map value ++ items).drop l.slots.length = items := by
    rcases hitems with rfl | rfl <;> simp [hslots]
  have hfst : ((back ++ l.keywordOnly).map (fun n => (n, value n)) ++ entries).map Prod.fst =
      (back ++ l.keywordOnly) ++ entries.map Prod.fst := by
    simp [Function.comp_def]
  have hchecks : (items.isEmpty = true ∨ l.variadic.isSome = true) ∧
      (entries.isEmpty = true ∨ l.keywords.isSome = true) ∧
      ((back ++ l.keywordOnly) ++ entries.map Prod.fst).Nodup ∧
      ∀ n ∈ (back ++ l.keywordOnly) ++ entries.map Prod.fst, n ∈ l.nameable →
        n ∉ (front.map (fun n => (n, value n))).map Prod.fst := by
    refine ⟨?_, ?_, ?_, ?_⟩
    · exact (em (items = [])).imp List.isEmpty_iff.mpr hrest
    · exact (em (entries = [])).imp List.isEmpty_iff.mpr hextra
    · rw [List.nodup_append]
      refine ⟨hlater, hkeys, ?_⟩
      rintro n hn m hm rfl
      exact hfree n hm (hnameable n hn)
    · intro n hn hin hfront
      rcases List.mem_append.mp hn with hn | hn
      · exact hapart n (by simpa using hfront) n hn rfl
      · exact hfree n hn hin
  unfold bind
  simp only [hfilled, hdropped, extra_of_parts hnameable hfree, hfst]
  rw [if_pos hchecks, values_of_parts default? entries hnamed hnameable]
  rfl

variable {source : String → Option String} {store : Store V}

/-- The values that are passed by position. -/
theorem flatMap_byPosition :
    (passed source false l.entries).flatMap (·.byPosition store) =
      (l.slots.takeWhile (fun n => (source n).isSome)).map
          (fun n => (operandOf (source n)).value store)
        ++ (l.spreadSource source).toList.flatMap store.items
        ++ (if l.turned source then [] else l.keywordOnly.takeWhile (fun n => (source n).isSome)).map
          (fun n => (operandOf (source n)).value store) := by
  rw [passed_entries]
  simp only [List.flatMap_append, List.flatMap_map, Actual.byPosition, ← List.map_eq_flatMap,
    flatMap_const_nil]
  simp

/-- The values that are passed by name. -/
theorem flatMap_byName :
    (passed source false l.entries).flatMap (·.byName store) =
      (l.slots.dropWhile (fun n => (source n).isSome)).map
          (fun n => (n, (operandOf (source n)).value store))
        ++ (if l.turned source then l.keywordOnly
            else l.keywordOnly.dropWhile (fun n => (source n).isSome)).map
          (fun n => (n, (operandOf (source n)).value store))
        ++ (l.spreadNamedSource source).toList.flatMap store.entries := by
  rw [passed_entries]
  simp only [List.flatMap_append, List.flatMap_map, Actual.byName, ← List.map_eq_flatMap,
    flatMap_const_nil]
  simp

/-- Where the wires allow the call, all keyword-only parameters are passed by name. -/
theorem Passable.keywordOnly_byName (h : l.Passable source) :
    (if l.turned source then [] else
        l.keywordOnly.takeWhile (fun n => (source n).isSome)) = [] ∧
      (if l.turned source then l.keywordOnly else
        l.keywordOnly.dropWhile (fun n => (source n).isSome)) = l.keywordOnly := by
  by_cases ht : l.turned source = true
  · simp [ht]
  · have hall : l.variadic ≠ none ∧ ∀ n, source n = none → n ∉ l.slots := by
      simpa [turned, and_comm] using ht
    cases hk : l.keywordOnly with
    | nil => simp
    | cons n rest =>
      have hn : source n = none := by
        by_contra hn
        obtain ⟨m, hm, hnone⟩ := h.keywordOnly hall.1 n (by simp [hk]) hn
        exact hall.2 m hnone (List.mem_append_right _ hm)
      simp [hn]

/-- Arguments that are made the same way may follow each other. -/
theorem pairwise_mayPrecede_map {α : Type} {argument : α → Actual} (as : List α)
    (h : ∀ a b, (argument a).mayPrecede (argument b) = true) :
    (as.map argument).Pairwise (fun a b => a.mayPrecede b = true) :=
  List.pairwise_map.mpr (List.pairwise_of_forall h)

/-- Where the wires allow the call, its arguments stand in an order that a call may have. -/
theorem Passable.ordered (h : l.Passable source) :
    (passed source false l.entries).Pairwise (fun a b => a.mayPrecede b = true) := by
  have hspread : ((l.spreadNamedSource source).toList.map Actual.spreadNamed).Pairwise
      (fun a b => a.mayPrecede b = true) := by
    cases l.spreadNamedSource source <;> simp
  have hsame := @pairwise_mayPrecede_map
  rw [passed_entries, h.keywordOnly_byName.1, h.keywordOnly_byName.2]
  simp only [List.map_nil, List.append_nil, List.pairwise_append, List.mem_append, List.mem_map]
  refine ⟨⟨⟨⟨hsame _ (fun _ _ => rfl), hsame _ (fun _ _ => rfl), ?_⟩, hsame _ (fun _ _ => rfl), ?_⟩,
    hsame _ (fun _ _ => rfl), ?_⟩, hspread, ?_⟩
  · rintro _ ⟨n, -, rfl⟩ _ ⟨m, -, rfl⟩
    rfl
  · rintro _ (⟨n, -, rfl⟩ | ⟨n, -, rfl⟩) _ ⟨m, -, rfl⟩ <;> rfl
  · rintro _ ((⟨n, -, rfl⟩ | ⟨n, -, rfl⟩) | ⟨n, -, rfl⟩) _ ⟨m, -, rfl⟩ <;> rfl
  · rintro _ (((⟨n, -, rfl⟩ | ⟨n, -, rfl⟩) | ⟨n, -, rfl⟩) | ⟨n, -, rfl⟩) _ ⟨m, -, rfl⟩ <;> rfl

/-- A call that the wires allow binds what they ask for. -/
theorem Passable.bindCall (h : l.Passable source) (default? : String → Option V)
    (hfits : l.Fits source store) :
    l.bindCall default? store (passed source false l.entries) = some (l.intended source store) := by
  have hwired : ∀ n ∈ l.positionalOnly, (source n).isSome = true := fun n hn =>
    Option.isSome_iff_ne_none.mpr (h.positionalOnly n hn)
  have htake : l.slots.takeWhile (fun n => (source n).isSome) =
      l.positionalOnly ++ l.ordinary.takeWhile (fun n => (source n).isSome) :=
    List.takeWhile_append_of_pos hwired
  have hdrop : l.slots.dropWhile (fun n => (source n).isSome) =
      l.ordinary.dropWhile (fun n => (source n).isSome) :=
    List.dropWhile_append_of_pos hwired
  have hitems : l.ordinary.dropWhile (fun n => (source n).isSome) = [] ∨
      (l.spreadSource source).toList.flatMap store.items = [] := by
    cases hs : l.spreadSource source with
    | none => exact Or.inr rfl
    | some v =>
      refine Or.inl (List.dropWhile_eq_nil_iff.mpr ?_)
      intro n hn
      exact Option.isSome_iff_ne_none.mpr (h.spread (by simp [hs]) n hn)
  unfold ParameterList.bindCall
  rw [if_pos h.ordered, flatMap_byPosition, flatMap_byName, h.keywordOnly_byName.1,
    h.keywordOnly_byName.2, htake, hdrop, List.map_nil, List.append_nil, ← List.map_append]
  refine bind_of_parts default? ?_ ?_ hitems ?_ ?_ ?_ ?_
  · rw [slots, List.append_assoc, List.takeWhile_append_dropWhile]
  · intro n hn
    exact List.dropWhile_subset _ hn
  · intro hne
    cases hv : l.variadic with
    | none => simp [spreadSource, hv] at hne
    | some n => rfl
  · intro hne
    cases hk : l.keywords with
    | none => simp [spreadNamedSource, hk] at hne
    | some n => rfl
  · cases hs : l.spreadNamedSource source with
    | none => exact List.nodup_nil
    | some v => simpa using (hfits v hs).1
  · cases hs : l.spreadNamedSource source with
    | none => simp
    | some v => simpa using (hfits v hs).2

/-- Values whose spreads hold one item and no entry. -/
def plainStore : Store Unit where
  none := ()
  value _ := ()
  items _ := [()]
  entries _ := []

theorem fits_plainStore : l.Fits source plainStore := by
  intro v hv
  simp [plainStore]

/-- A slot without a source is passed by name. -/
theorem mem_dropWhile_slots {n : String} (hn : n ∈ l.slots) (hs : source n = none) :
    n ∈ l.slots.dropWhile (fun n => (source n).isSome) := by
  rw [← List.takeWhile_append_dropWhile (p := fun n => (source n).isSome) (l := l.slots),
    List.mem_append] at hn
  refine hn.resolve_left (fun htaken => ?_)
  have := List.mem_takeWhile_imp htaken
  simp [hs] at this

section Bound

variable (h : l.bindCall (fun _ => none) plainStore (passed source false l.entries) =
  some (l.intended source plainStore))

include h

/-- What the check of such a call says: its spread items are what is left over of the values by
position, it passes no name that no parameter has, and it fills no slot twice. -/
theorem bindCall_plainStore :
    (l.spreadSource source).toList.flatMap plainStore.items =
      ((passed source false l.entries).flatMap (·.byPosition plainStore)).drop l.slots.length ∧
    (∀ e ∈ (passed source false l.entries).flatMap (·.byName plainStore), e.1 ∈ l.nameable) ∧
    ∀ n ∈ ((passed source false l.entries).flatMap (·.byName plainStore)).map Prod.fst,
      n ∈ l.nameable → n ∉ (l.slots.zip
        ((passed source false l.entries).flatMap (·.byPosition plainStore))).map Prod.fst := by
  unfold ParameterList.bindCall at h
  split at h
  · obtain ⟨hrest, hextra, htwice⟩ := bind_cases h
    refine ⟨hrest, ?_, htwice⟩
    have hnone : (l.intended source plainStore).extra = [] := by
      cases hs : l.spreadNamedSource source <;> simp [intended, hs, plainStore]
    rw [hnone, eq_comm, List.filter_eq_nil_iff] at hextra
    simpa using hextra
  · cases h

theorem positionalOnly_of_bindCall : ∀ n ∈ l.positionalOnly, source n ≠ none := by
  obtain ⟨-, hextra, -⟩ := bindCall_plainStore h
  intro n hn hs
  have hmem := mem_dropWhile_slots (List.mem_append_left l.ordinary hn) hs
  have hpassed : (n, (operandOf (source n)).value plainStore) ∈
      (passed source false l.entries).flatMap (·.byName plainStore) := by
    rw [flatMap_byName]
    exact List.mem_append_left _ (List.mem_append_left _ (List.mem_map_of_mem hmem))
  exact l.not_mem_nameable hn (hextra _ hpassed)

/-- The item that is spread would fill the first open slot, which is passed by name as well. -/
theorem spread_of_bindCall (hspread : l.spreadSource source ≠ none) :
    ∀ n ∈ l.ordinary, source n ≠ none := by
  obtain ⟨-, -, htwice⟩ := bindCall_plainStore h
  obtain ⟨v, hv⟩ := Option.ne_none_iff_exists'.mp hspread
  intro n hn hsn
  cases hd : l.slots.dropWhile (fun n => (source n).isSome) with
  | nil =>
    have hmem := mem_dropWhile_slots (List.mem_append_right l.positionalOnly hn) hsn
    rw [hd] at hmem
    cases hmem
  | cons m more =>
    have hm : source m = none := by
      have hnot := List.head?_dropWhile_not (fun n => (source n).isSome) l.slots
      rw [hd] at hnot
      simpa using hnot
    have hslots : l.slots = l.slots.takeWhile (fun n => (source n).isSome) ++ m :: more := by
      rw [← hd, List.takeWhile_append_dropWhile]
    have hordinary : m ∈ l.ordinary := by
      have hmem : m ∈ l.slots := by
        rw [hslots]
        simp
      exact (List.mem_append.mp hmem).resolve_left
        (fun hp => positionalOnly_of_bindCall h m hp hm)
    rw [flatMap_byName, flatMap_byPosition] at htwice
    refine htwice m (by simp [hd]) (List.mem_append_left _ hordinary) ?_
    rw [hv]
    nth_rewrite 1 [hslots]
    rw [List.append_assoc, List.zip_append (by simp), List.map_append, List.mem_append]
    exact Or.inr (by simp [plainStore])

/-- Otherwise the parameter would be passed by position, behind all slots. -/
theorem keywordOnly_of_bindCall (hv : l.variadic ≠ none) {n : String}
    (hn : n ∈ l.keywordOnly.head?) (hs : source n ≠ none) : ∃ m ∈ l.ordinary, source m = none := by
  obtain ⟨hrest, -, -⟩ := bindCall_plainStore h
  by_contra hnot
  have hwired : ∀ m ∈ l.slots, source m ≠ none := by
    intro m hm
    rcases List.mem_append.mp hm with hm | hm
    · exact positionalOnly_of_bindCall h m hm
    · exact fun hsm => hnot ⟨m, hm, hsm⟩
  have hall : ∀ m ∈ l.slots, (source m).isSome = true := fun m hm =>
    Option.isSome_iff_ne_none.mpr (hwired m hm)
  have hturned : l.turned source = false := by
    simpa [turned] using ⟨hwired, Option.isSome_iff_ne_none.mpr hv⟩
  obtain ⟨more, hk⟩ : ∃ more, l.keywordOnly = n :: more := List.head?_eq_some_iff.mp hn
  rw [flatMap_byPosition, hturned, List.takeWhile_eq_self_iff.mpr hall, hk] at hrest
  have hlength := congrArg List.length hrest
  simp [Option.isSome_iff_ne_none.mpr hs] at hlength

/-- A call that binds what the wires ask for is one that they allow. -/
theorem passable_of_bindCall : l.Passable source where
  positionalOnly := positionalOnly_of_bindCall h
  spread := spread_of_bindCall h
  keywordOnly hv _ hn hs := keywordOnly_of_bindCall h hv hn hs

end Bound

/-- A call binds what the wires ask for, whatever its variables hold, exactly when the wires allow
it. -/
theorem bindCall_eq_intended_iff :
    (∀ (V : Type) (default? : String → Option V) (store : Store V), l.Fits source store →
      l.bindCall default? store (passed source false l.entries) = some (l.intended source store)) ↔
      l.Passable source := by
  constructor
  · intro h
    exact passable_of_bindCall (h Unit (fun _ => none) plainStore fits_plainStore)
  · intro h V default? store hfits
    exact h.bindCall default? hfits

/-! ## Ports -/

/-- The entries that are not named parameters. -/
def marks (l : ParameterList) : List Entry :=
  l.slash ++ l.star ++ l.doubleStar

theorem mem_entries_iff {e : Entry} :
    e ∈ l.entries ↔ e ∈ l.named.map Entry.named ∨ e ∈ l.marks := by
  simp only [entries, marks, named, List.map_append, List.mem_append]
  tauto

theorem mem_marks {e : Entry} (h : e ∈ l.marks) :
    e = .slash ∨ e = .bareStar ∨ (∃ n ∈ l.variadic, e = .variadic n) ∨
      ∃ n ∈ l.keywords, e = .keywords n := by
  simp only [marks, List.mem_append, slash, star, doubleStar, Option.mem_toList,
    Option.map_eq_some_iff] at h
  rcases h with (h | h) | ⟨n, hn, rfl⟩
  · split at h <;> simp_all
  · split at h
    · simp_all
    · split at h <;> simp_all
  · simp_all

theorem marks_nodup : l.marks.Nodup := by
  unfold marks slash star doubleStar
  split <;> cases l.variadic <;> cases l.keywords <;> simp
  all_goals split <;> simp

theorem named_of_mem_entries : ∀ e ∈ l.entries, e.Named := by
  intro e he
  have hname := l.isName_of_mem
  rcases mem_entries_iff.mp he with he | he
  · obtain ⟨n, hn, rfl⟩ := List.mem_map.mp he
    exact hname n (List.mem_append_left _ (List.mem_append_left _ hn))
  · rcases mem_marks he with rfl | rfl | ⟨n, hn, rfl⟩ | ⟨n, hn, rfl⟩
    · trivial
    · trivial
    · exact hname n (by simp [Option.mem_def.mp hn])
    · exact hname n (by simp [Option.mem_def.mp hn])

theorem entries_nodup : l.entries.Nodup := by
  have hparts : (l.named.map Entry.named ++ l.marks).Nodup := by
    rw [List.nodup_append]
    refine ⟨l.named_nodup.map (fun a b hab => Entry.named.inj hab), marks_nodup, ?_⟩
    rintro e he e' he' rfl
    obtain ⟨n, -, rfl⟩ := List.mem_map.mp he
    rcases mem_marks he' with h | h | ⟨m, -, h⟩ | ⟨m, -, h⟩ <;> cases h
  rw [List.nodup_iff_count_le_one] at hparts ⊢
  intro e
  have hcount := hparts e
  simp only [entries, named, marks, List.map_append, List.count_append] at hcount ⊢
  omega

end ParameterList

/-- The entry that a port spells. -/
def Entry.ofSpelled (s : String) : Entry :=
  if s = "/" then .slash
  else if s = "*" then .bareStar
  else if starsOf s = "*" then .variadic (String.ofList (s.toList.drop 1))
  else if starsOf s = "**" then .keywords (String.ofList (s.toList.drop 2))
  else .named s

theorem Entry.ofSpelled_spelled {e : Entry} (h : e.Named) : ofSpelled e.spelled = e := by
  have hmarker : ∀ {n : String}, isName n = true → ∀ stars : String,
      stars ++ n ≠ "/" ∧ stars ++ n ≠ "*" := fun hn stars =>
    ⟨stars_append_ne (isIdentifier_of_isName hn) stars (by decide),
      stars_append_ne (isIdentifier_of_isName hn) stars (by decide)⟩
  cases e with
  | slash => rfl
  | bareStar => rfl
  | named n =>
    obtain ⟨hslash, hstar, hstars⟩ := plain_of_isIdentifier (isIdentifier_of_isName h)
    simp [ofSpelled, spelled, hslash, hstar, hstars]
  | variadic n =>
    have hstars : starsOf ("*" ++ n) = "*" := starsOf_stars ['*'] (by simp) (isIdentifier_of_isName h)
    obtain ⟨hslash, hstar⟩ := hmarker h "*"
    simp [ofSpelled, spelled, hslash, hstar, hstars]
  | keywords n =>
    have hstars : starsOf ("**" ++ n) = "**" :=
      starsOf_stars ['*', '*'] (by simp) (isIdentifier_of_isName h)
    obtain ⟨hslash, hstar⟩ := hmarker h "**"
    simp [ofSpelled, spelled, hslash, hstar, hstars]

theorem ParameterList.spelled_nodup {l : ParameterList} : (l.entries.map Entry.spelled).Nodup := by
  refine List.Nodup.map_on ?_ l.entries_nodup
  intro e he e' he' heq
  rw [← Entry.ofSpelled_spelled (l.named_of_mem_entries e he), heq,
    Entry.ofSpelled_spelled (l.named_of_mem_entries e' he')]

/-- What feeds the port of a parameter. -/
def sourceOf (f : Flow) (c : Collected) (n : Node) (parameter : String) : Option String :=
  (n.inputPorts.find? (fun p => Port.parameter p == parameter)).bind (fun p => resolve? f c n.id p.id)

theorem find?_parameter {ports : List Port} (h : (ports.map Port.parameter).Nodup) {port : Port}
    (hport : port ∈ ports) :
    ports.find? (fun p => Port.parameter p == Port.parameter port) = some port := by
  induction ports with
  | nil => cases hport
  | cons p ports ih =>
    rw [List.map_cons, List.nodup_cons] at h
    rcases List.mem_cons.mp hport with rfl | hport
    · simp
    · have hne : Port.parameter p ≠ Port.parameter port := by
        intro heq
        exact h.1 (heq ▸ List.mem_map_of_mem hport)
      rw [List.find?_cons_of_neg (by simpa using hne), ih h.2 hport]

/-- Where parameters differ, a port is fed by the source of its parameter. -/
theorem wiredInputs_eq {f : Flow} {c : Collected} {n : Node}
    (h : (n.inputPorts.map Port.parameter).Nodup) :
    wiredInputs f c n = n.inputPorts.map (fun p => (p, sourceOf f c n (Port.parameter p))) := by
  refine List.map_congr_left ?_
  intro p hp
  rw [sourceOf, find?_parameter h hp]
  rfl

theorem Placed.underscore_mem_of_mem_outputs {p : Placed} {o : String × String}
    (h : o ∈ p.outputs) : '_' ∈ o.2.toList := by
  have htable : p.node.kind.isTabular = true → '_' ∈ o.2.toList := by
    intro hk
    rw [outputs_of_tabular hk] at h
    split at h
    · cases h
    · rw [List.mem_singleton] at h
      rw [h]
      simp [tableVariable]
  cases hk : p.node.kind with
  | function =>
    simp only [outputs, hk] at h
    cases hc : p.call? with
    | none => simp [hc] at h
    | some function =>
      rw [hc] at h
      obtain ⟨i, -, -, -, ho⟩ := mem_outputVariables_iff.mp h
      rw [ho]
      simp
  | csvInput => exact htable (by simp [hk, NodeKind.isTabular])
  | excelInput => exact htable (by simp [hk, NodeKind.isTabular])
  | subFlow => simp [outputs, hk] at h
  | output => simp [outputs, hk] at h
  | other name => simp [outputs, hk] at h

namespace Plan

variable {f : Flow}

/-- Variables hold an underscore, and no reserved word does. -/
theorem isName_of_resolve? {id port v : String}
    (h : resolve? f (ofFlow f).collected id port = some v) : isName v = true := by
  have hunder : '_' ∈ v.toList := by
    unfold resolve? at h
    split at h
    · cases h
    · obtain ⟨q, hq, -, ho⟩ := valueOf?_cases h
      exact Placed.underscore_mem_of_mem_outputs ho
  refine isName_of_isIdentifier (isIdentifier_of_resolve? h) ?_
  intro hv
  exact (show ∀ w ∈ reservedWords, '_' ∉ w.toList by decide) v hv hunder

end Plan

end FlowScript.Script

namespace FlowScript

open Script

/-- The lines of a function node whose input ports spell a parameter list are a call of its function.
The call gives every wired parameter its variable, starred ones spread, and every open one `None`,
whatever the variables hold, exactly when all positional-only parameters are wired, a starred
parameter is wired only together with all parameters before it, and the first keyword-only parameter
behind a starred one is wired only if a parameter before it is open. -/
theorem call_binds_iff (f : Flow) {p : Placed} (hp : p ∈ (Plan.ofFlow f).nodes)
    (hk : p.node.kind = .function) {function : String} (hcall : p.call? = some function)
    (l : ParameterList)
    (hports : p.node.inputPorts.map Port.parameter = l.entries.map Entry.spelled) :
    ∃ call actuals,
      bodyLines f (Plan.ofFlow f).collected p = assigned (Plan.targets f p) call ∧
      readCall (String.intercalate "\n" call).toList = some (function, actuals) ∧
      ((∀ (V : Type) (default? : String → Option V) (store : Store V),
          l.Fits (sourceOf f (Plan.ofFlow f).collected p.node) store →
          l.bindCall default? store actuals =
            some (l.intended (sourceOf f (Plan.ofFlow f).collected p.node) store)) ↔
        l.Passable (sourceOf f (Plan.ofFlow f).collected p.node)) := by
  have hsource : ∀ s v, sourceOf f (Plan.ofFlow f).collected p.node s = some v →
      isName v = true := by
    intro s v hv
    obtain ⟨port, -, hport⟩ := Option.bind_eq_some_iff.mp hv
    exact Plan.isName_of_resolve? hport
  have hwired := wiredInputs_eq (f := f) (c := (Plan.ofFlow f).collected) (n := p.node)
    (hports ▸ l.spelled_nodup)
  refine ⟨_, _, Plan.bodyLines_of_call hp hk hcall, ?_, l.bindCall_eq_intended_iff⟩
  refine readCall_callText (Placed.isIdentifier_of_call? (Plan.isWord_name hp) hcall).word ?_
    (named_of_mem_passed l.named_of_mem_entries hsource) ?_
  · rw [hwired]
    exact arguments_text l.named_of_mem_entries hports _ false
  · intro a ha comment hcomment
    exact ⟨blank_not_mem_comment (by decide) (by decide) ha comment hcomment,
      blank_not_mem_comment (by decide) (by decide) ha comment hcomment⟩

/-- A table. -/
def tableNode : Node :=
  { id := "t", kind := .csvInput, name := "t"
    outputs := [some { id := "t.o", nodeId := "t", direction := .output }]
    payload := some (.file {}) }

/-- A call of `f` with an input port for each of the given parameters. -/
def callNode (code : String) (parameters : List String) : Node :=
  { id := "n", kind := .function, name := "n"
    inputs := parameters.map (fun s => some { id := s, name := s, nodeId := "n", direction := .input })
    payload := some (.function { code := code }) }

/-- A call in which the given parameters are wired to a table. -/
def callFlow (code : String) (parameters wired : List String) : Flow :=
  { nodes := [some tableNode, some (callNode code parameters)]
    connections := wired.map (fun s => some ⟨s, "t", "t.o", "n", s⟩) }

/-- The parameters of `def f(a, /, b, *rest, flag, **opts)`. -/
def mixedParameters : ParameterList where
  positionalOnly := ["a"]
  ordinary := ["b"]
  variadic := some "rest"
  keywordOnly := ["flag"]
  keywords := some "opts"
  isName_of_mem := by decide +kernel
  nodup := by decide

/-- A call in which everything but the keyword-only parameter is wired. -/
def mixedFlow : Flow :=
  callFlow "def f(a, /, b, *rest, flag, **opts):\n    return a" ["a", "/", "b", "*rest", "flag", "**opts"]
    ["a", "b", "*rest", "**opts"]

def mixedCall : Placed :=
  ⟨1, "n", callNode "def f(a, /, b, *rest, flag, **opts):\n    return a"
    ["a", "/", "b", "*rest", "flag", "**opts"]⟩

/-- The call binds the table to `a` and `b`, `None` to `flag`, and spreads the table for the starred
parameters. -/
theorem mixedFlow_binds :
    mixedCall ∈ (Plan.ofFlow mixedFlow).nodes ∧ mixedCall.node.kind = .function ∧
    mixedCall.call? = some "f" ∧
    mixedCall.node.inputPorts.map Port.parameter = mixedParameters.entries.map Entry.spelled ∧
    ∃ call actuals,
      bodyLines mixedFlow (Plan.ofFlow mixedFlow).collected mixedCall =
        assigned (Plan.targets mixedFlow mixedCall) call ∧
      readCall (String.intercalate "\n" call).toList = some ("f", actuals) ∧
      ∀ (V : Type) (default? : String → Option V) (store : Store V),
        mixedParameters.Fits
          (sourceOf mixedFlow (Plan.ofFlow mixedFlow).collected mixedCall.node) store →
        mixedParameters.bindCall default? store actuals =
          some ⟨[("a", store.value "df_t"), ("b", store.value "df_t"), ("flag", store.none)],
            store.items "df_t", store.entries "df_t"⟩ := by
  have hp : mixedCall ∈ (Plan.ofFlow mixedFlow).nodes :=
    List.mem_of_getElem? (i := 1) rfl
  have hcall : mixedCall.call? = some "f" := by decide +kernel
  have hports : mixedCall.node.inputPorts.map Port.parameter =
      mixedParameters.entries.map Entry.spelled := by decide +kernel
  have ha : sourceOf mixedFlow (Plan.ofFlow mixedFlow).collected mixedCall.node "a" = some "df_t" := by
    decide +kernel
  have hb : sourceOf mixedFlow (Plan.ofFlow mixedFlow).collected mixedCall.node "b" = some "df_t" := by
    decide +kernel
  have hflag : sourceOf mixedFlow (Plan.ofFlow mixedFlow).collected mixedCall.node "flag" = none := by
    decide +kernel
  have hrest : mixedParameters.spreadSource
      (sourceOf mixedFlow (Plan.ofFlow mixedFlow).collected mixedCall.node) = some "df_t" := by
    decide +kernel
  have hopts : mixedParameters.spreadNamedSource
      (sourceOf mixedFlow (Plan.ofFlow mixedFlow).collected mixedCall.node) = some "df_t" := by
    decide +kernel
  obtain ⟨call, actuals, hlines, hread, hiff⟩ :=
    call_binds_iff mixedFlow hp rfl hcall mixedParameters hports
  refine ⟨hp, rfl, hcall, hports, call, actuals, hlines, hread, ?_⟩
  have hpassable : mixedParameters.Passable
      (sourceOf mixedFlow (Plan.ofFlow mixedFlow).collected mixedCall.node) := by
    refine ⟨?_, ?_, ?_⟩
    · simp [mixedParameters, ha]
    · simp [mixedParameters, hb]
    · simp [mixedParameters, hflag]
  have hnamed : mixedParameters.named = ["a", "b", "flag"] := rfl
  intro V default? store hfits
  rw [hiff.mpr hpassable V default? store hfits]
  simp [ParameterList.intended, hnamed, hrest, hopts, ha, hb, hflag, operandOf, Operand.value]

/-- The parameters of `def f(*args, k)`. -/
def keywordOnlyParameters : ParameterList where
  variadic := some "args"
  keywordOnly := ["k"]
  isName_of_mem := by decide +kernel
  nodup := by decide

/-- A call in which the keyword-only parameter behind a starred one is wired. -/
def keywordOnlyFlow : Flow :=
  callFlow "def f(*args, k):\n    return k" ["*args", "k"] ["k"]

/-- The value of the keyword-only parameter is passed by position, so that the call fails. -/
theorem keywordOnlyFlow_call_fails :
    ∃ p ∈ (Plan.ofFlow keywordOnlyFlow).nodes, p.node.kind = .function ∧ p.call? = some "f" ∧
      p.node.inputPorts.map Port.parameter = keywordOnlyParameters.entries.map Entry.spelled ∧
      sourceOf keywordOnlyFlow (Plan.ofFlow keywordOnlyFlow).collected p.node "k" = some "df_t" ∧
      bodyLines keywordOnlyFlow (Plan.ofFlow keywordOnlyFlow).collected p = ["f(df_t)"] ∧
      readCall "f(df_t)".toList = some ("f", [.positional (.var "df_t")]) ∧
      ∀ (V : Type) (store : Store V), keywordOnlyParameters.bindCall (fun _ => none) store
        [.positional (.var "df_t")] = none := by
  refine ⟨⟨1, "n", callNode "def f(*args, k):\n    return k" ["*args", "k"]⟩,
    List.mem_of_getElem? (i := 1) rfl, rfl, by decide +kernel, by decide +kernel, by decide +kernel,
    by decide +kernel, by decide +kernel, ?_⟩
  intro V store
  rfl

end FlowScript
