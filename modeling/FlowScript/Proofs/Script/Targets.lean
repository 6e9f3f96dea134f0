import FlowScript.Proofs.Script.DefinedBeforeUse

/-!
# The names that a block assigns

A line assigns the words in front of its equals sign. Lines that call, print or remark have a
character in front of their first equals sign that no list of words has, or no space behind it, so
which names a block assigns can be told from the kind of its node.

## Main definitions

- `Targets` — a line of a block assigns a name
- `blockNames`, `helperNames` — the names that the block of a node assigns

## Main results

- `targets_assignment_iff` — a line that assigns some words assigns no others
- `not_targets_callText` — no line of a call assigns anything by itself
- `Plan.exists_targets_iff` — the lines of a block assign exactly the names of the block
-/

namespace FlowScript

namespace Script

/-- A line of a block, however deep it stands, assigns `v`: it names one or more variables, `v` among
them, in front of an equals sign. -/
def Targets (line v : String) : Prop :=
  ∃ depth targets value,
    line = String.ofList (List.replicate depth ' ') ++ String.intercalate ", " targets
      ++ " = " ++ value ∧
    v ∈ targets ∧ ∀ t ∈ targets, IsIdentifier t

/-! ## Words in front of an equals sign -/

/-- The characters that stand in front of the equals sign of an assignment. -/
def isTargetChar (c : Char) : Bool :=
  isWordChar c || c == ',' || c == ' '

theorem isTargetChar_of_mem_intercalate {targets : List String} (h : ∀ t ∈ targets, IsWord t) :
    ∀ c ∈ (String.intercalate ", " targets).toList, isTargetChar c = true := by
  induction targets with
  | nil => simp
  | cons t rest ih =>
    have ht : ∀ c ∈ t.toList, isTargetChar c = true := by
      intro c hc
      simp [isTargetChar, h t List.mem_cons_self c hc]
    have hrest := ih (fun u hu => h u (List.mem_cons_of_mem t hu))
    by_cases hr : rest = []
    · simpa [hr] using ht
    · rw [String.intercalate_cons_of_ne_nil hr]
      intro c hc
      simp only [String.toList_append, List.mem_append] at hc
      rcases hc with (hc | hc) | hc
      · exact ht c hc
      · have hsep : c = ',' ∨ c = ' ' := by simpa using hc
        rcases hsep with rfl | rfl
        · rfl
        · rfl
      · exact hrest c hc

/-- What stands between the commas of a list of words, spaces left aside, are the words. -/
theorem cutWhere_intercalate {targets : List String} (h : ∀ t ∈ targets, IsWord t)
    (hne : targets ≠ []) :
    Text.cutWhere (· == ',') ((String.intercalate ", " targets).toList.filter (· != ' ')) =
      targets.map String.toList := by
  induction targets with
  | nil => exact absurd rfl hne
  | cons t rest ih =>
    have hword := h t List.mem_cons_self
    have hspaces : t.toList.filter (· != ' ') = t.toList := by
      refine List.filter_eq_self.mpr ?_
      intro c hc
      rw [bne_iff_ne]
      rintro rfl
      exact hword.not_mem (by decide) hc
    have hone : Text.cutWhere (· == ',') t.toList = [t.toList] :=
      Text.cut_of_free (hword.not_mem (by decide))
    by_cases hr : rest = []
    · subst hr
      rw [String.intercalate_singleton, hspaces, hone]
      rfl
    · have hchars : (String.intercalate ", " (t :: rest)).toList.filter (· != ' ') =
          t.toList ++ ',' :: (String.intercalate ", " rest).toList.filter (· != ' ') := by
        rw [String.intercalate_cons_of_ne_nil hr]
        simp [hspaces]
      rw [hchars, Text.cutWhere_append_sep (by rfl), hone,
        ih (fun u hu => h u (List.mem_cons_of_mem t hu)) hr]
      rfl

/-- In front of the first equals sign of an assignment stand its targets, and behind it a space. -/
theorem exists_front (depth : Nat) {targets : List String} (value : String)
    (h : ∀ t ∈ targets, IsWord t) (hne : targets ≠ []) :
    ∃ front, (String.ofList (List.replicate depth ' ') ++ String.intercalate ", " targets
        ++ " = " ++ value).toList = front ++ '=' :: ' ' :: value.toList ∧
      (∀ c ∈ front, isTargetChar c = true) ∧
      Text.cutWhere (· == ',') (front.filter (· != ' ')) = targets.map String.toList := by
  refine ⟨List.replicate depth ' ' ++ (String.intercalate ", " targets).toList ++ [' '],
    by simp, ?_, ?_⟩
  · intro c hc
    simp only [List.mem_append, List.mem_replicate, List.mem_singleton] at hc
    rcases hc with (⟨-, rfl⟩ | hc) | rfl
    · rfl
    · exact isTargetChar_of_mem_intercalate h c hc
    · rfl
  · rw [← cutWhere_intercalate h hne]
    simp

theorem Targets.exists_front {line v : String} (h : Targets line v) :
    ∃ front rest, ∃ targets : List String, line.toList = front ++ '=' :: ' ' :: rest ∧
      (∀ c ∈ front, isTargetChar c = true) ∧ v ∈ targets ∧
      Text.cutWhere (· == ',') (front.filter (· != ' ')) = targets.map String.toList := by
  obtain ⟨depth, targets, value, rfl, hv, hids⟩ := h
  obtain ⟨front, hline, hfront, hcut⟩ := Script.exists_front depth value
    (fun t ht => (hids t ht).word) (List.ne_nil_of_mem hv)
  exact ⟨front, value.toList, targets, hline, hfront, hv, hcut⟩

/-- The equals sign is none of the characters in front of it. -/
theorem sign_not_mem {front : List Char} (h : ∀ c ∈ front, isTargetChar c = true) :
    '=' ∉ front := by
  intro hmem
  have := h '=' hmem
  revert this
  decide

/-- A line with another character in front of its first equals sign assigns nothing. -/
theorem not_targets_append {front v : String} (rest : String) (hsign : '=' ∉ front.toList)
    (hmark : ∃ c ∈ front.toList, isTargetChar c = false) : ¬ Targets (front ++ rest) v := by
  intro ht
  obtain ⟨words, behind, -, heq, hwords, -⟩ := ht.exists_front
  obtain ⟨c, hc, hother⟩ := hmark
  have hout : c ∉ words := by
    intro hmem
    rw [hwords c hmem] at hother
    cases hother
  rw [String.toList_append] at heq
  rcases List.append_eq_append_iff.mp heq with ⟨r, hr, -⟩ | ⟨r, hr, hbehind⟩
  · exact hout (hr ▸ List.mem_append_left r hc)
  · cases r with
    | nil => exact hout (by simpa [hr] using hc)
    | cons d r =>
      obtain ⟨rfl, -⟩ := List.cons.inj hbehind
      exact hsign (hr ▸ by simp)

/-- A line without space behind its first equals sign assigns nothing. -/
theorem not_targets_sign {front rest v : String} (hfront : '=' ∉ front.toList)
    (hrest : rest.toList.head? ≠ some ' ') : ¬ Targets (front ++ "=" ++ rest) v := by
  intro ht
  obtain ⟨words, behind, -, heq, hwords, -⟩ := ht.exists_front
  have hline : (front ++ "=" ++ rest).toList = front.toList ++ '=' :: rest.toList := by simp
  obtain ⟨-, hbehind⟩ := Text.append_sep_inj hfront (sign_not_mem hwords) (hline.symm.trans heq)
  exact hrest (by rw [hbehind, List.head?_cons])

/-- A line without equals sign assigns nothing. -/
theorem not_targets_of_no_sign {line v : String} (h : '=' ∉ line.toList) : ¬ Targets line v := by
  intro ht
  obtain ⟨words, behind, -, heq, -⟩ := ht.exists_front
  exact h (by simp [heq])

/-- A comment assigns nothing. -/
theorem not_targets_comment {line v : String} (h : line.toList.head? = some '#') :
    ¬ Targets line v := by
  obtain ⟨cs, hcs⟩ := List.head?_eq_some_iff.mp h
  have hline : line = "#" ++ String.ofList cs := by
    apply String.toList_injective
    simp [hcs]
  rw [hline]
  exact not_targets_append _ (by decide) ⟨'#', by decide, by decide⟩

/-- A line that assigns some words assigns no others. -/
theorem targets_assignment_iff (depth : Nat) {targets : List String} (value : String) {v : String}
    (hids : ∀ t ∈ targets, IsIdentifier t) (hne : targets ≠ []) :
    Targets (String.ofList (List.replicate depth ' ') ++ String.intercalate ", " targets
      ++ " = " ++ value) v ↔ v ∈ targets := by
  constructor
  · intro ht
    obtain ⟨front, hline, hfront, hcut⟩ := exists_front depth value
      (fun t ht => (hids t ht).word) hne
    obtain ⟨front', rest, targets', hline', hfront', hv, hcut'⟩ := ht.exists_front
    obtain ⟨rfl, -⟩ := Text.append_sep_inj (sign_not_mem hfront) (sign_not_mem hfront')
      (hline.symm.trans hline')
    have hmap : targets.map String.toList = targets'.map String.toList := hcut.symm.trans hcut'
    rwa [List.map_injective_iff.mpr (fun _ _ => String.toList_injective) hmap]
  · intro hv
    exact ⟨depth, targets, value, rfl, hv, hids⟩

theorem targets_single_iff (depth : Nat) {name : String} (value : String) {v : String}
    (hname : IsIdentifier name) :
    Targets (String.ofList (List.replicate depth ' ') ++ name ++ " = " ++ value) v ↔ v = name := by
  have hids : ∀ t ∈ [name], IsIdentifier t := by simpa using hname
  have h := targets_assignment_iff depth value (v := v) hids (by simp)
  rwa [String.intercalate_singleton, List.mem_singleton] at h

/-- The same for a line that does not stand any deeper than its block. -/
theorem targets_name_iff {name value v : String} (hname : IsIdentifier name) :
    Targets (name ++ " = " ++ value) v ↔ v = name := by
  have h := targets_single_iff 0 value (v := v) hname
  rwa [List.replicate_zero, String.ofList_nil, String.empty_append] at h

/-! ## Calls -/

theorem sign_not_mem_indented {w : String} (hw : IsWord w) : '=' ∉ (indent ++ w).toList := by
  have hindent : '=' ∉ indent.toList := by decide
  have hword : '=' ∉ w.toList := hw.not_mem (by decide)
  simpa using ⟨hindent, hword⟩

/-- An argument without equals sign is followed by none, or by a comment. -/
theorem not_targets_word {w v rest : String} (hw : IsWord w)
    (hrest : rest = "" ∨ ∃ comment, rest = "  # " ++ comment) :
    ¬ Targets (indent ++ w ++ "," ++ rest) v := by
  rcases hrest with rfl | ⟨comment, rfl⟩
  · refine not_targets_of_no_sign ?_
    simpa using sign_not_mem_indented hw
  · rw [← String.append_assoc]
    refine not_targets_append comment ?_ ⟨'#', by simp, by decide⟩
    simpa using sign_not_mem_indented hw

/-- An argument with an equals sign has no space behind it. -/
theorem not_targets_named {parameter w v : String} (hparameter : IsWord parameter)
    (hw : IsIdentifier w) (rest : String) :
    ¬ Targets (indent ++ (parameter ++ "=" ++ w) ++ "," ++ rest) v := by
  obtain ⟨c, cs, hcs, hc⟩ := hw.start
  have hline : indent ++ (parameter ++ "=" ++ w) ++ "," ++ rest =
      indent ++ parameter ++ "=" ++ (w ++ "," ++ rest) := by
    simp only [String.append_assoc]
  rw [hline]
  refine not_targets_sign (sign_not_mem_indented hparameter) ?_
  simp only [String.toList_append, hcs, List.cons_append, List.head?_cons]
  rintro ⟨⟩
  cases hc

/-- A line of a call with an argument on it assigns nothing, also when the argument is passed by
name: there is no space around its equals sign. -/
theorem not_targets_argument {a : Argument} {v : String}
    (h : a.PassesNone ∨ ∃ w, IsIdentifier w ∧ a.Passes w) {rest : String}
    (hrest : rest = "" ∨ ∃ comment, rest = "  # " ++ comment) :
    ¬ Targets (indent ++ a.text ++ "," ++ rest) v := by
  rcases h with ⟨parameter, hparameter, htext⟩ | ⟨w, hw, htext | ⟨parameter, hparameter, htext⟩ |
    ⟨n, htext⟩⟩
  · have hnone : a.text = parameter ++ "=" ++ "None" := by
      rw [htext, String.append_assoc]
      rfl
    rw [hnone]
    exact not_targets_named hparameter ⟨by simp [IsWord, isWordChar], 'N', _, rfl, by decide⟩ rest
  · rw [htext]
    exact not_targets_word hw.word hrest
  · rw [htext]
    exact not_targets_named hparameter hw rest
  · cases n with
    | zero =>
      have hplain : a.text = w := by simpa using htext
      rw [hplain]
      exact not_targets_word hw.word hrest
    | succ n =>
      have hline : indent ++ a.text ++ "," ++ rest =
          (indent ++ "*") ++ (String.ofList (List.replicate n '*') ++ w ++ "," ++ rest) := by
        apply String.toList_injective
        simp [htext, List.replicate_succ]
      rw [hline]
      exact not_targets_append _ (by decide) ⟨'*', by decide, by decide⟩

/-- No line of a call assigns anything by itself. -/
theorem not_targets_callText {function : String} (hfunction : IsIdentifier function)
    {args : List Argument} (hargs : ∀ a ∈ args, a.PassesNone ∨ ∃ w, IsIdentifier w ∧ a.Passes w)
    {line v : String} (hline : line ∈ callText function args) : ¬ Targets line v := by
  have hopening : ∀ rest, ¬ Targets (function ++ "(" ++ rest) v := by
    intro rest
    have hsign : '=' ∉ function.toList := hfunction.word.not_mem (by decide)
    exact not_targets_append rest (by simpa using hsign) ⟨'(', by simp, by decide⟩
  unfold callText at hline
  split at hline
  · rw [List.mem_singleton.mp hline, String.append_assoc]
    exact hopening _
  · simp only [List.mem_cons, List.mem_append, List.mem_map, List.not_mem_nil, or_false] at hline
    rcases hline with rfl | ⟨a, ha, rfl⟩ | rfl
    · simpa using hopening ""
    · refine not_targets_argument (hargs a ha) ?_
      cases a.comment with
      | none => exact Or.inl rfl
      | some comment => exact Or.inr ⟨comment, rfl⟩
    · exact not_targets_of_no_sign (by decide)

/-- A call assigns the variables in front of it. -/
theorem exists_targets_assigned_iff {function : String} (hfunction : IsIdentifier function)
    {args : List Argument} (hargs : ∀ a ∈ args, a.PassesNone ∨ ∃ w, IsIdentifier w ∧ a.Passes w)
    {targets : List String} (hids : ∀ t ∈ targets, IsIdentifier t) {v : String} :
    (∃ line ∈ assigned targets (callText function args), Targets line v) ↔ v ∈ targets := by
  have hcall : ∀ line ∈ callText function args, ¬ Targets line v :=
    fun line hline => not_targets_callText hfunction hargs hline
  obtain ⟨first, rest, hlines⟩ := exists_callText_eq function args
  rw [hlines] at hcall ⊢
  by_cases hne : targets = []
  · simpa [assigned, hne] using hcall
  · have hfirst := targets_assignment_iff 0 (function ++ "(" ++ first) (v := v) hids hne
    rw [List.replicate_zero, String.ofList_nil, String.empty_append] at hfirst
    rw [assigned, if_neg (by simpa using hne)]
    constructor
    · rintro ⟨line, hline, ht⟩
      rcases List.mem_cons.mp hline with rfl | hline
      · exact hfirst.mp ht
      · exact absurd ht (hcall line (List.mem_cons_of_mem _ hline))
    · intro hv
      exact ⟨_, List.mem_cons_self, hfirst.mpr hv⟩

/-! ## The names of a block -/

/-- The variables of a block that hold no output of its node: the text of the rows of a table, and
what an output node shows. -/
def helperNames (c : Collected) (p : Placed) : List String :=
  match p.node.kind with
  | .csvInput | .excelInput =>
    if (c.rows.lookup p.place).isSome then [tableVariable p.name ++ "_json_data_str"] else []
  | .output => if p.node.inputPorts.isEmpty then [] else [sinkVariable p.name]
  | _ => []

/-- The names that a block assigns. -/
def blockNames (c : Collected) (p : Placed) : List String :=
  match p.node.kind with
  | .function =>
    match (c.calls.lookup p.place).getD none with
    | none => []
    | some _ => p.node.outputPorts.map (fun o => (c.valueOf? p.node.id o.id).getD "")
  | .csvInput | .excelInput => tableVariable p.name :: helperNames c p
  | .output => if p.node.inputPorts.isEmpty then [] else helperNames c p ++ ["buf", "img_str"]
  | _ => []

/-- The lines of a tabular input assign its table and, if it holds them, the text of its rows. -/
theorem exists_targets_tableLines_iff {c : Collected} {p : Placed} (hname : IsWord p.name)
    {v : String} :
    (∃ line ∈ tableLines c p, Targets line v) ↔
      v = tableVariable p.name ∨
        ((c.rows.lookup p.place).isSome = true ∧ v = tableVariable p.name ++ "_json_data_str") := by
  have htable := Placed.isIdentifier_tableVariable hname
  have hrowsText : IsIdentifier (tableVariable p.name ++ "_json_data_str") :=
    htable.append (by simp [IsWord, isWordChar])
  cases hrows : c.rows.lookup p.place with
  | none =>
    obtain ⟨value, hlines⟩ := tableLines_of_no_rows hrows
    simp [hlines, targets_name_iff htable]
  | some rows =>
    obtain ⟨value, hlines⟩ := tableLines_of_rows hrows
    simp only [hlines, List.mem_cons, List.not_mem_nil, or_false, exists_eq_or_imp, exists_eq_left,
      targets_name_iff htable, targets_name_iff hrowsText, Option.isSome_some, true_and]
    exact Or.comm

theorem isIdentifier_sinkVariable {name : String} (hname : IsWord name) :
    IsIdentifier (sinkVariable name) :=
  IsIdentifier.append ⟨by simp [IsWord, isWordChar], 'o', _, rfl, by decide⟩ hname

theorem targets_buffer_iff {v : String} : Targets (indent ++ "buf = BytesIO()") v ↔ v = "buf" := by
  have hbuf : IsIdentifier "buf" := ⟨by simp [IsWord, isWordChar], 'b', _, rfl, by decide⟩
  exact targets_single_iff 4 "BytesIO()" hbuf

theorem targets_image_iff {v : String} :
    Targets (indent ++ "img_str = base64.b64encode(buf.getvalue()).decode('utf-8')") v ↔
      v = "img_str" := by
  have himage : IsIdentifier "img_str" := ⟨by simp [IsWord, isWordChar], 'i', _, rfl, by decide⟩
  exact targets_single_iff 4 "base64.b64encode(buf.getvalue()).decode('utf-8')" himage

/-- Saving a figure names a format, but assigns nothing. -/
theorem not_targets_savefig {name v : String} (hname : IsWord name) :
    ¬ Targets (indent ++ sinkVariable name ++ ".savefig(buf, format='png')") v := by
  have hsplit : ".savefig(buf, format='png')" = "." ++ "savefig(buf, format='png')" := rfl
  rw [hsplit, ← String.append_assoc]
  refine not_targets_append _ ?_ ⟨'.', by simp, by decide⟩
  simpa using sign_not_mem_indented (isIdentifier_sinkVariable hname).word

/-- A line that prints assigns nothing, whatever it prints. -/
theorem not_targets_print {v : String} (rest : String) :
    ¬ Targets (indent ++ "print(f\"" ++ rest) v :=
  not_targets_append rest (by decide) ⟨'(', by decide, by decide⟩

/-- The lines of an output node with an input assign its variable and those of a figure. -/
theorem exists_targets_sinkLines_iff {f : Flow} {c : Collected} {p : Placed} (hname : IsWord p.name)
    {v : String} :
    (∃ line ∈ sinkLines f c p, Targets line v) ↔
      p.node.inputPorts ≠ [] ∧ (v = sinkVariable p.name ∨ v = "buf" ∨ v = "img_str") := by
  unfold sinkLines
  cases p.node.inputPorts with
  | nil =>
    simp only [List.mem_singleton, exists_eq_left, ne_eq, not_true_eq_false, false_and, iff_false]
    rw [String.append_assoc]
    exact not_targets_append _ (by decide) ⟨'(', by decide, by decide⟩
  | cons input rest =>
    have hfirst : ∀ source, Targets (sinkVariable p.name ++ " = " ++ source) v ↔
        v = sinkVariable p.name := fun source =>
      targets_name_iff (isIdentifier_sinkVariable hname)
    have htest : ∀ s t, ¬ Targets ("if isinstance(" ++ s ++ t) v := by
      intro s t
      rw [String.append_assoc]
      exact not_targets_append _ (by decide) ⟨'(', by decide, by decide⟩
    have hsave := not_targets_savefig (v := v) hname
    have hclose : ∀ s t, ¬ Targets (indent ++ "plt.close(" ++ s ++ t) v := by
      intro s t
      rw [String.append_assoc]
      exact not_targets_append _ (by decide) ⟨'.', by decide, by decide⟩
    have hseek : ¬ Targets (indent ++ "buf.seek(0)") v := not_targets_of_no_sign (by decide)
    have helse : ¬ Targets "else:" v := not_targets_of_no_sign (by decide)
    have hmark : ∀ s t, ¬ Targets (indent ++ "print(f\"" ++ s ++ t) v := by
      intro s t
      rw [String.append_assoc]
      exact not_targets_print _
    have hshown : ∀ s t u w, ¬ Targets (indent ++ "print(f\"" ++ s ++ t ++ u ++ w) v := by
      intro s t u w
      simp only [String.append_assoc]
      simpa only [String.append_assoc] using not_targets_print (v := v) (s ++ (t ++ (u ++ w)))
    simp only [List.mem_cons, List.not_mem_nil, or_false, exists_eq_or_imp, exists_eq_left, hfirst,
      targets_buffer_iff, targets_image_iff, htest, hsave, hclose, hseek, helse, hmark, hshown,
      false_or, ne_eq, reduceCtorEq, not_false_eq_true, true_and]

namespace Plan

variable {f : Flow}

theorem isIdentifier_of_resolve? {id port v : String}
    (h : resolve? f (ofFlow f).collected id port = some v) : IsIdentifier v := by
  unfold resolve? at h
  split at h
  · cases h
  · exact isIdentifier_of_valueOf? h

/-- The lines of a block assign exactly the names of the block. -/
theorem exists_targets_iff {q : Placed} (hq : q ∈ (ofFlow f).nodes) {v : String} :
    (∃ line ∈ bodyLines f (ofFlow f).collected q, Targets line v) ↔
      v ∈ blockNames (ofFlow f).collected q := by
  have hname := isWord_name hq
  cases hk : q.node.kind with
  | function =>
    cases hcall : q.call? with
    | none =>
      simp only [bodyLines, blockNames, hk, callLines, call_at hq hk, hcall, Option.getD_some]
      simpa using not_targets_comment (by decide)
    | some function =>
      have hargs : ∀ a ∈ arguments false (wiredInputs f (ofFlow f).collected q.node),
          a.PassesNone ∨ ∃ w, IsIdentifier w ∧ a.Passes w := by
        intro a ha
        rcases mem_arguments ha with hnone | ⟨port, w, hmem, hpass⟩
        · exact Or.inl hnone
        · obtain ⟨input, -, heq⟩ := List.mem_map.mp hmem
          exact Or.inr ⟨w, isIdentifier_of_resolve? (congrArg Prod.snd heq), hpass⟩
      rw [bodyLines_of_call hq hk hcall, exists_targets_assigned_iff
        (Placed.isIdentifier_of_call? hname hcall) hargs
        (fun t ht => isIdentifier_of_mem_targets hq hk hcall ht)]
      simp only [blockNames, hk, call_at hq hk, hcall, Option.getD_some, targets]
  | csvInput =>
    simp only [bodyLines, blockNames, helperNames, hk, exists_targets_tableLines_iff hname]
    split <;> simp_all
  | excelInput =>
    simp only [bodyLines, blockNames, helperNames, hk, exists_targets_tableLines_iff hname]
    split <;> simp_all
  | output =>
    simp only [bodyLines, blockNames, helperNames, hk, exists_targets_sinkLines_iff hname]
    split <;> simp_all
  | subFlow =>
    have hlines : ∀ line ∈ subFlowLines q, ¬ Targets line v := by
      intro line hline
      simp only [subFlowLines, List.mem_cons, List.not_mem_nil, or_false] at hline
      rcases hline with rfl | rfl
      · exact not_targets_comment (by simp)
      · exact not_targets_comment (by simp)
    simpa [bodyLines, blockNames, hk] using hlines
  | other name =>
    have hline : ∀ s t, ¬ Targets ("# unsupported node type " ++ s ++ t) v := fun s t =>
      not_targets_comment (by simp)
    simp only [bodyLines, blockNames, hk, List.mem_singleton, exists_eq_left, hline,
      List.not_mem_nil]

end Plan

end Script

end FlowScript
