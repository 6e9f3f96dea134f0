import FlowScript.Proofs.Script.SharedFindings

/-!
# Imports and definitions of a script

What the nodes of a flow bring to its script besides their blocks: import statements and function
definitions. A statement that is there already is not repeated, and a function that is defined
already keeps its first definition; a later body that differs is noted. In this way every piece of
collected code is accounted for, whatever names, bodies and imports the nodes share.

## Main definitions

- `redefinitions` — the findings that are about redefined functions
- `Supplies` — some statements and definitions were gathered

## Main results

- `foldl_collectNode_supplies` — what gathering the nodes adds
- `foldl_addNew` — what is added once is kept in the order of its first occurrence
- `find?_of_mem_foldl_addDefinition` — the definitions that are kept are the first ones
- `Plan.bodyLines_cases` — a function node with code is a call of the function that it brings
- `script_accounts_for_code` — imports, definitions, calls and redefinitions of every script
-/

namespace FlowScript

namespace Script

/-- The findings that are about redefined functions. -/
def redefinitions (diagnostics : List Diagnostic) : List Diagnostic :=
  diagnostics.filter (fun d => d.code = .duplicateFunction)

/-! ## Different elements -/

section Different

variable {α : Type} [DecidableEq α]

/-- Adds an element to different elements unless it is among them. -/
def addNew (known : List α) (a : α) : List α :=
  if known.contains a then known else known ++ [a]

theorem nodup_addNew {as : List α} (h : as.Nodup) (a : α) : (addNew as a).Nodup := by
  unfold addNew
  split
  · exact h
  · next hnew =>
    rw [List.nodup_append]
    refine ⟨h, List.nodup_singleton a, ?_⟩
    rintro b hb c hc rfl
    rw [List.mem_singleton.mp hc] at hb
    exact hnew (List.contains_iff_mem.mpr hb)

theorem nodup_foldl_addNew {as : List α} (h : as.Nodup) (more : List α) :
    (more.foldl addNew as).Nodup := by
  induction more generalizing as with
  | nil => exact h
  | cons a rest ih => exact ih (nodup_addNew h a)

theorem eraseDups_of_nodup {as : List α} (h : as.Nodup) : as.eraseDups = as := by
  induction as with
  | nil => rfl
  | cons a rest ih =>
    obtain ⟨ha, hrest⟩ := List.nodup_cons.mp h
    have hkeep : rest.filter (fun b => !b == a) = rest := by
      rw [List.filter_eq_self]
      intro b hb
      simpa using ne_of_mem_of_not_mem hb ha
    rw [List.eraseDups_cons, hkeep, ih hrest]

/-- Elements that are added one by one are the different ones, in the order of their first
occurrence. -/
theorem foldl_addNew {as : List α} (h : as.Nodup) (more : List α) :
    more.foldl addNew as = (as ++ more).eraseDups := by
  induction more generalizing as with
  | nil => rw [List.foldl_nil, List.append_nil, eraseDups_of_nodup h]
  | cons a rest ih =>
    rw [List.foldl_cons, ih (nodup_addNew h a)]
    unfold addNew
    split
    · next hold =>
      have hrest : (a :: rest).removeAll as = rest.removeAll as := by
        rw [List.removeAll, List.filter_cons_of_neg (by simpa using hold), List.removeAll]
      rw [List.eraseDups_append, List.eraseDups_append, hrest]
    · rw [List.append_assoc, List.singleton_append]

end Different

/-! ## Definitions of different functions -/

section Definitions

/-- Adding a definition changes the first one of no function. -/
theorem find?_addDefinition (known : List Definition) (d : Definition) (rest : List Definition)
    (name : String) :
    (addDefinition known d ++ rest).find? (·.name == name) =
      (known ++ d :: rest).find? (·.name == name) := by
  unfold addDefinition
  split
  · next hany =>
    obtain ⟨first, hfirst, hname⟩ := List.any_eq_true.mp hany
    rw [List.find?_append, List.find?_append]
    by_cases hd : d.name = name
    · -- the function is known, so that the search ends in front of the definition
      have hsome : (known.find? (·.name == name)).isSome = true := by
        rw [List.find?_isSome]
        exact ⟨first, hfirst, hd ▸ hname⟩
      obtain ⟨found, hfound⟩ := Option.isSome_iff_exists.mp hsome
      rw [hfound, Option.some_or, Option.some_or]
    · rw [List.find?_cons_of_neg (by simpa using hd)]
  · rw [List.append_assoc, List.singleton_append]

theorem find?_foldl_addDefinition (known ds rest : List Definition) (name : String) :
    (ds.foldl addDefinition known ++ rest).find? (·.name == name) =
      (known ++ (ds ++ rest)).find? (·.name == name) := by
  induction ds generalizing known with
  | nil => rfl
  | cons d ds ih =>
    rw [List.foldl_cons, ih, find?_addDefinition, List.cons_append]

/-- Definitions that come later do not decide whether a definition differs from the first one. -/
theorem redefines_append {all : List Definition} {d : Definition} (hd : d ∈ all)
    (more : List Definition) : redefines (all ++ more) d = redefines all d := by
  have hsome : (all.find? (·.name == d.name)).isSome = true := by
    rw [List.find?_isSome]
    exact ⟨d, hd, by simp⟩
  obtain ⟨first, hfirst⟩ := Option.isSome_iff_exists.mp hsome
  rw [redefines, redefines, List.find?_append, hfirst, Option.some_or]

theorem map_name_addDefinition (known : List Definition) (d : Definition) :
    (addDefinition known d).map (·.name) = addNew (known.map (·.name)) d.name := by
  have hcontains : (known.map (·.name)).contains d.name = known.any (·.name == d.name) := by
    rw [Bool.eq_iff_iff]
    simp
  unfold addDefinition addNew
  rw [hcontains]
  split <;> simp

theorem map_name_foldl_addDefinition (known ds : List Definition) :
    (ds.foldl addDefinition known).map (·.name) =
      (ds.map (·.name)).foldl addNew (known.map (·.name)) := by
  induction ds generalizing known with
  | nil => rfl
  | cons d rest ih =>
    rw [List.foldl_cons, ih, map_name_addDefinition, List.map_cons, List.foldl_cons]

/-- The definitions that are kept are the first ones of their functions. -/
theorem find?_of_mem_foldl_addDefinition {ds : List Definition} {d : Definition}
    (h : d ∈ ds.foldl addDefinition []) : ds.find? (·.name == d.name) = some d := by
  have hnames : ((ds.foldl addDefinition []).map (·.name)).Nodup := by
    rw [map_name_foldl_addDefinition]
    exact nodup_foldl_addNew List.nodup_nil _
  have hfind := find?_foldl_addDefinition [] ds [] d.name
  rw [List.append_nil, List.append_nil, List.nil_append] at hfind
  rw [← hfind, find?_eq_some_of_nodup hnames h]

end Definitions

/-- An import statement is not empty. -/
theorem ne_empty_of_mem_importsOf {lines : List (List Char)} {statement : String}
    (h : statement ∈ importsOf lines) : statement ≠ "" := by
  obtain ⟨line, hline, rfl⟩ := List.mem_map.mp h
  have himport := (List.mem_filter.mp hline).2
  intro hempty
  have hnil : Text.strip line = [] := String.ofList_eq_empty_iff.mp hempty
  simp [isImport, isImportLine, hnil] at himport
  revert himport
  decide

theorem Placed.ne_empty_of_mem_statements {p : Placed} {statement : String}
    (h : statement ∈ p.statements) : statement ≠ "" := by
  have htable : ∀ rows : Option (List Char),
      ∀ s ∈ tableImport :: if rows.isSome then [rowsImport] else [], s ≠ "" := by
    intro rows
    cases rows <;> simp [tableImport, rowsImport]
  unfold statements at h
  split at h
  · exact ne_empty_of_mem_importsOf h
  · exact htable _ _ h
  · exact htable _ _ h
  · cases h

/-- Statements are added like the elements of any list. -/
theorem foldl_addImport (imports : List String) {statements : List String}
    (hne : ∀ s ∈ statements, s ≠ "") :
    statements.foldl addImport imports = statements.foldl addNew imports := by
  induction statements generalizing imports with
  | nil => rfl
  | cons s rest ih =>
    have hrest := fun t ht => hne t (List.mem_cons_of_mem s ht)
    have hs : addImport imports s = addNew imports s := by
      simp [addImport, addNew, hne s List.mem_cons_self]
    rw [List.foldl_cons, List.foldl_cons, hs, ih _ hrest]

/-! ## What gathering adds -/

/-- Some import statements and some definitions were gathered. -/
structure Supplies (statements : List String) (ds : List Definition) (c c' : Collected) : Prop where
  imports : c'.imports = statements.foldl addImport c.imports
  definitions : c'.definitions = ds.foldl addDefinition c.definitions
  notes : redefinitions c'.diagnostics = redefinitions c.diagnostics ++
    (ds.filter (redefines (c.definitions ++ ds))).map redefinitionNote

theorem redefinitions_append (as bs : List Diagnostic) :
    redefinitions (as ++ bs) = redefinitions as ++ redefinitions bs := by
  simp [redefinitions]

theorem redefinitions_notes (p : Placed) (known : List Definition) :
    redefinitions (p.notes known) = p.redefinition known := by
  have hcomplaints : redefinitions p.complaints = [] := by
    refine List.filter_eq_nil_iff.mpr ?_
    intro d hd
    rcases Placed.code_of_mem_complaints hd with h | h <;> simp [h]
  have hmissing : redefinitions p.missing = [] := by
    refine List.filter_eq_nil_iff.mpr ?_
    intro d hd
    simp [Placed.code_of_mem_missing hd]
  have hredefinition : redefinitions (p.redefinition known) = p.redefinition known := by
    refine List.filter_eq_self.mpr ?_
    intro d hd
    simp [Placed.code_of_mem_redefinition hd]
  rw [Placed.notes, redefinitions_append, redefinitions_append, hcomplaints, hmissing,
    hredefinition, List.nil_append, List.nil_append]

/-- The definitions that are noted are those that differ from the first one of their function, also
among the definitions that come later. -/
theorem redefinitions_gatheringNotes (known : List Definition) (nodes : List Placed) :
    redefinitions (gatheringNotes known nodes) =
      ((nodes.filterMap Placed.definition?).filter
        (redefines (known ++ nodes.filterMap Placed.definition?))).map redefinitionNote := by
  induction nodes generalizing known with
  | nil => rfl
  | cons p rest ih =>
    generalize hbrought : p.definition?.toList = brought
    generalize hmore : rest.filterMap Placed.definition? = more at ih
    have hall : (p :: rest).filterMap Placed.definition? = brought ++ more := by
      rw [← hbrought, ← hmore]
      cases hd : p.definition? <;> simp [hd]
    have hlater : ∀ d ∈ more, redefines (brought.foldl addDefinition known ++ more) d =
        redefines (known ++ (brought ++ more)) d := by
      intro d _
      rw [redefines, redefines, find?_foldl_addDefinition]
    have hearlier : ∀ d ∈ brought, redefines (known ++ brought) d =
        redefines (known ++ (brought ++ more)) d := by
      intro d hd
      rw [← List.append_assoc, redefines_append (List.mem_append_right known hd)]
    rw [gatheringNotes, redefinitions_append, redefinitions_notes, Placed.redefinition, ih, hall,
      hbrought, List.filter_congr hlater, List.filter_congr hearlier, ← List.map_append,
      ← List.filter_append]

/-- Gathering nodes one after the other adds what each of them brings. -/
theorem foldl_collectNode_supplies (nodes : List Placed) (c : Collected) :
    Supplies (nodes.flatMap Placed.statements) (nodes.filterMap Placed.definition?) c
      (nodes.foldl (fun c p => collectNode c p.place p.name p.node) c) := by
  rw [foldl_collectNode_eq]
  constructor
  case imports => rfl
  case definitions => rfl
  case notes => rw [redefinitions_append, redefinitions_gatheringNotes]

/-- The block of a function node is a call of the function that the node brings, unless it has no
code. -/
theorem Plan.bodyLines_cases {f : Flow} {p : Placed} (hp : p ∈ (Plan.ofFlow f).nodes)
    (hk : p.node.kind = .function) :
    (p.definition? = none ∧
      bodyLines f (Plan.ofFlow f).collected p = ["# node has no code, nothing to call"]) ∨
    ∃ d args, p.definition? = some d ∧
      bodyLines f (Plan.ofFlow f).collected p =
        assigned (Plan.targets f p) (callText d.name args) := by
  cases hcall : p.call? with
  | none =>
    refine .inl ⟨by simp [Placed.definition?, hk, hcall], ?_⟩
    simp only [bodyLines, hk, callLines, Plan.call_at hp hk, hcall, Option.getD_some]
  | some name =>
    have hd : p.definition? = some ⟨name, p.node.name, p.node.id, bodyOf p.codeOf⟩ := by
      simp [Placed.definition?, hk, hcall]
    exact .inr ⟨_, _, hd, Plan.bodyLines_of_call hp hk hcall⟩

end Script

open Script

/-- All collected code of a flow is accounted for. The imports of its script are the different ones
among the base imports and the statements of the nodes, in the order of their first occurrence. The
script defines each function that the nodes bring once, in that order as well, with the definition
that the first of its nodes brings. The block of a function node calls one of these functions,
unless the node has no code. Of the definitions that the nodes bring, exactly those that differ from
the first one of their function are noted. -/
theorem script_accounts_for_code (f : Flow) (stamp : String) :
    let plan := Plan.ofFlow f
    let result := f.compileAt stamp
    let brought := plan.nodes.filterMap Placed.definition?
    let defined := plan.collected.definitions
    result.order = plan.nodes.map (·.node.id) ∧
    result.imports = (baseImports ++ plan.nodes.flatMap Placed.statements).eraseDups ∧
    result.imports.Nodup ∧
    result.script = header f stamp ++ String.intercalate "\n" result.imports ++ "\n\n\n"
      ++ String.join (defined.map (fun d => d.text ++ "\n\n\n"))
      ++ driver (plan.nodes.map (block f plan.collected)) ∧
    defined.map (·.name) = (brought.map (·.name)).eraseDups ∧
    (∀ d ∈ defined, brought.find? (·.name == d.name) = some d) ∧
    (∀ p ∈ plan.nodes, p.node.kind = .function →
      (p.definition? = none ∧
        bodyLines f plan.collected p = ["# node has no code, nothing to call"]) ∨
      ∃ d args, p.definition? = some d ∧ d.name ∈ defined.map (·.name) ∧
        bodyLines f plan.collected p =
          assigned (Plan.targets f p) (callText d.name args)) ∧
    redefinitions result.diagnostics =
      (brought.filter (redefines brought)).map redefinitionNote := by
  intro plan result brought defined
  have hsupplies : Supplies (plan.nodes.flatMap Placed.statements) brought
      { imports := baseImports } plan.collected := foldl_collectNode_supplies plan.nodes _
  have hne : ∀ s ∈ plan.nodes.flatMap Placed.statements, s ≠ "" := by
    intro s hs
    obtain ⟨p, -, hp⟩ := List.mem_flatMap.mp hs
    exact p.ne_empty_of_mem_statements hp
  have hbase : baseImports.Nodup := by decide
  have himports : result.imports =
      (plan.nodes.flatMap Placed.statements).foldl addNew baseImports :=
    hsupplies.imports.trans (foldl_addImport baseImports hne)
  have hdefined : defined = brought.foldl addDefinition [] := hsupplies.definitions
  have hnames : defined.map (·.name) = (brought.map (·.name)).eraseDups := by
    rw [hdefined, map_name_foldl_addDefinition]
    exact foldl_addNew List.nodup_nil _
  refine ⟨rfl, himports.trans (foldl_addNew hbase _), ?_, rfl, hnames, ?_, ?_, ?_⟩
  · rw [himports]
    exact nodup_foldl_addNew hbase _
  · intro d hd
    exact find?_of_mem_foldl_addDefinition (hdefined ▸ hd)
  · intro p hp hk
    rcases Plan.bodyLines_cases hp hk with hnone | ⟨d, args, hd, hcall⟩
    · exact .inl hnone
    · refine .inr ⟨d, args, hd, ?_, hcall⟩
      rw [hnames, List.mem_eraseDups]
      exact List.mem_map_of_mem (List.mem_filterMap.mpr ⟨p, hp, hd⟩)
  · have hnotes : redefinitions result.diagnostics = redefinitions plan.collected.diagnostics :=
      gathering_notes f stamp (by decide)
    rw [hnotes, hsupplies.notes]
    rfl

end FlowScript
