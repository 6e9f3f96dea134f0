import FlowScript.Proofs.Script.Targets

/-!
# The text of calls

A call stands on one line, or on one line for each argument when an argument has a comment. Arguments
are made of words, stars and equals signs, so the lines of a call tell how many it has.

## Main results

- `isPlain_of_mem_arguments` — the arguments of a node fit on a line and hold no comma
- `oneLine_of_mem_assigned` — the lines of a call fill one line each
- `length_eq_of_assigned` — calls with the same lines have as many arguments
-/

namespace FlowScript.Script

/-- Of the blanks of a text a remark keeps nothing but spaces. -/
theorem blank_not_mem_remarkText {c : Char} (hc : Text.isBlank c = true) (hne : c ≠ ' ')
    (s : String) : c ∉ (remarkText s).toList := by
  have hglue : ∀ words : List (List Char), (∀ w ∈ words, c ∉ w) → c ∉ Text.glue [' '] words := by
    intro words
    induction words with
    | nil => simp [Text.glue]
    | cons w rest ih =>
      intro h
      have hw := h w List.mem_cons_self
      cases rest with
      | nil => simpa [Text.glue] using hw
      | cons v rest =>
        have hrest := ih (fun u hu => h u (List.mem_cons_of_mem w hu))
        simpa [Text.glue] using ⟨hw, hne, hrest⟩
  unfold remarkText remark
  rw [String.toList_ofList]
  refine hglue _ ?_
  intro w hw hn
  have hfree := Text.cutWhere_free (List.mem_of_mem_filter hw) c hn
  rw [hc] at hfree
  cases hfree

theorem oneLine_remarkText (s : String) : OneLine (remarkText s) :=
  blank_not_mem_remarkText (by decide) (by decide) s

/-- An argument that fits on one line and cannot be taken for two. -/
structure Argument.IsPlain (a : Argument) : Prop where
  ne_empty : a.text ≠ ""
  oneLine : OneLine a.text
  comma : ',' ∉ a.text.toList
  comment : ∀ comment, a.comment = some comment → OneLine comment

/-- No text of an argument holds anything but words, stars and equals signs. -/
theorem Argument.exists_text_eq {a : Argument}
    (h : a.PassesNone ∨ ∃ v, IsIdentifier v ∧ a.Passes v) :
    ∃ stars parameter v : List Char, a.text.toList = stars ++ (parameter ++ v) ∧ v ≠ [] ∧
      (∀ c ∈ stars, c = '*') ∧ (∀ c ∈ parameter, isWordChar c = true ∨ c = '=') ∧
      ∀ c ∈ v, isWordChar c = true := by
  have hne : ∀ {v : String}, IsIdentifier v → v.toList ≠ [] := by
    rintro v ⟨-, c, tail, hv, -⟩
    simp [hv]
  have hparameter : ∀ {w : String}, IsWord w → ∀ c ∈ (w ++ "=").toList,
      isWordChar c = true ∨ c = '=' := by
    intro w hw c hc
    rw [String.toList_append, List.mem_append] at hc
    rcases hc with hc | hc
    · exact Or.inl (hw c hc)
    · exact Or.inr (by simpa using hc)
  rcases h with ⟨w, hw, htext⟩ | ⟨v, hv, htext | ⟨w, hw, htext⟩ | ⟨n, htext⟩⟩
  · exact ⟨[], (w ++ "=").toList, "None".toList, by simp [htext], by decide, by simp, hparameter hw,
      List.all_eq_true.mp (by decide)⟩
  · exact ⟨[], [], v.toList, by simp [htext], hne hv, by simp, by simp, hv.word⟩
  · exact ⟨[], (w ++ "=").toList, v.toList, by simp [htext], hne hv, by simp, hparameter hw, hv.word⟩
  · exact ⟨List.replicate n '*', [], v.toList, by simp [htext], hne hv, by simp, by simp, hv.word⟩

theorem Argument.mem_text {a : Argument} (h : a.PassesNone ∨ ∃ v, IsIdentifier v ∧ a.Passes v)
    {c : Char} (hc : c ∈ a.text.toList) : c = '*' ∨ c = '=' ∨ isWordChar c = true := by
  obtain ⟨stars, parameter, v, htext, -, hstars, hparameter, hv⟩ := Argument.exists_text_eq h
  rw [htext, List.mem_append, List.mem_append] at hc
  rcases hc with hc | hc | hc
  · exact Or.inl (hstars c hc)
  · exact Or.inr ((hparameter c hc).symm)
  · exact Or.inr (Or.inr (hv c hc))

theorem Argument.isPlain_of_passes {a : Argument}
    (h : a.PassesNone ∨ ∃ v, IsIdentifier v ∧ a.Passes v)
    (hcomment : ∀ comment, a.comment = some comment → OneLine comment) : a.IsPlain := by
  refine ⟨?_, ?_, ?_, hcomment⟩
  · intro hempty
    obtain ⟨stars, parameter, v, htext, hne, -⟩ := Argument.exists_text_eq h
    rw [hempty] at htext
    simp_all
  · intro hc
    have := Argument.mem_text h hc
    revert this
    decide
  · intro hc
    have := Argument.mem_text h hc
    revert this
    decide

/-- Of all blanks a comment holds nothing but spaces. -/
theorem blank_not_mem_comment {c : Char} (hc : Text.isBlank c = true) (hne : c ≠ ' ')
    {keyword : Bool} {inputs : List (Port × Option String)} {a : Argument}
    (h : a ∈ arguments keyword inputs) : ∀ comment, a.comment = some comment → c ∉ comment.toList := by
  induction inputs generalizing keyword with
  | nil => cases h
  | cons input rest ih =>
    obtain ⟨port, source⟩ := input
    simp only [arguments] at h
    split at h
    · exact ih h
    · split at h
      · exact ih h
      · split at h
        · cases source with
          | none =>
            rcases List.mem_cons.mp h with rfl | h
            · have hfront : c ∉ "TODO: provide a value for input '".toList := by
                intro hmem
                have hspace : ("TODO: provide a value for input '".toList.all fun d =>
                    !Text.isBlank d || d == ' ') = true := by decide
                have hc' := List.all_eq_true.mp hspace c hmem
                rw [hc] at hc'
                exact hne (by simpa using hc')
              have hquote : c ≠ '\'' := by
                rintro rfl
                exact absurd hc (by decide)
              rintro comment ⟨⟩
              simpa only [String.toList_append, List.mem_append, not_or] using
                ⟨⟨hfront, blank_not_mem_remarkText hc hne port.name⟩, by simpa using hquote⟩
            · exact ih h
          | some v =>
            rcases List.mem_cons.mp h with rfl | h
            · rintro comment ⟨⟩
            · exact ih h
        · cases source with
          | none => exact ih h
          | some v =>
            rcases List.mem_cons.mp h with rfl | h
            · rintro comment ⟨⟩
            · exact ih h

theorem count_comma_intercalate {texts : List String} (h : ∀ t ∈ texts, ',' ∉ t.toList)
    (hne : texts ≠ []) : (String.intercalate ", " texts).toList.count ',' + 1 = texts.length := by
  induction texts with
  | nil => exact absurd rfl hne
  | cons t rest ih =>
    have ht : t.toList.count ',' = 0 := List.count_eq_zero.mpr (h t List.mem_cons_self)
    by_cases hr : rest = []
    · simp [hr, ht]
    · have hrest := ih (fun u hu => h u (List.mem_cons_of_mem t hu)) hr
      rw [String.intercalate_cons_of_ne_nil hr]
      simp only [String.toList_append, List.count_append, ht, List.length_cons]
      have hsep : (", ".toList).count ',' = 1 := by decide
      omega

/-- Arguments on one line are as many as the line tells. -/
theorem length_eq_of_intercalate {args args' : List Argument} (h : ∀ a ∈ args, a.IsPlain)
    (h' : ∀ a ∈ args', a.IsPlain)
    (heq : String.intercalate ", " (args.map (·.text)) =
      String.intercalate ", " (args'.map (·.text))) : args.length = args'.length := by
  have hcount : ∀ {args : List Argument}, (∀ a ∈ args, a.IsPlain) → args ≠ [] →
      (String.intercalate ", " (args.map (·.text))).toList.count ',' + 1 = args.length := by
    intro args h hne
    rw [count_comma_intercalate, List.length_map]
    · intro t ht
      obtain ⟨a, ha, rfl⟩ := List.mem_map.mp ht
      exact (h a ha).comma
    · simpa using hne
  have hempty : ∀ {args : List Argument}, (∀ a ∈ args, a.IsPlain) →
      String.intercalate ", " (args.map (·.text)) = "" → args = [] := by
    intro args h hnil
    by_contra hne
    have hone := hcount h hne
    rw [hnil] at hone
    obtain ⟨a, rfl⟩ := List.length_eq_one_iff.mp hone.symm
    exact (h a List.mem_cons_self).ne_empty (by simpa using hnil)
  by_cases hne : args = []
  · rw [hne] at heq ⊢
    rw [hempty h' heq.symm]
  · by_cases hne' : args' = []
    · rw [hne'] at heq ⊢
      rw [hempty h heq]
    · rw [← hcount h hne, ← hcount h' hne', heq]

/-- The line of an argument in a call over several lines. -/
def argumentLine (a : Argument) : String :=
  indent ++ a.text ++ "," ++
    match a.comment with
    | none => ""
    | some comment => "  # " ++ comment

theorem callText_eq (function : String) (args : List Argument) :
    callText function args =
      if args.all (fun a => a.comment.isNone) then
        [function ++ "(" ++ String.intercalate ", " (args.map (·.text)) ++ ")"]
      else (function ++ "(") :: (args.map argumentLine ++ [")"]) :=
  rfl

theorem not_mem_intercalate {c : Char} {sep : String} {parts : List String} (hsep : c ∉ sep.toList)
    (h : ∀ t ∈ parts, c ∉ t.toList) : c ∉ (String.intercalate sep parts).toList := by
  induction parts with
  | nil => simp
  | cons t rest ih =>
    have ht := h t List.mem_cons_self
    have hrest := ih (fun u hu => h u (List.mem_cons_of_mem t hu))
    by_cases hr : rest = []
    · simpa [hr] using ht
    · rw [String.intercalate_cons_of_ne_nil hr]
      simp only [String.toList_append, List.mem_append, not_or]
      exact ⟨⟨ht, hsep⟩, hrest⟩

theorem not_mem_argumentLine {c : Char} (hmarks : c ∉ " ,#".toList) {a : Argument}
    (htext : c ∉ a.text.toList) (hcomment : ∀ comment, a.comment = some comment → c ∉ comment.toList) :
    c ∉ (argumentLine a).toList := by
  obtain ⟨hspace, hcomma, hmark⟩ : c ≠ ' ' ∧ c ≠ ',' ∧ c ≠ '#' := by simpa using hmarks
  unfold argumentLine
  cases hc : a.comment with
  | none => simpa [indent] using ⟨hspace, htext, hcomma⟩
  | some comment =>
    simpa [indent] using ⟨hspace, htext, hcomma, hspace, hmark, hspace, hcomment comment hc⟩

/-- The lines of a call with its targets hold what its parts hold, and marks. -/
theorem not_mem_of_mem_assigned {c : Char} (hmarks : c ∉ " (),=".toList) {function : String}
    (hfunction : c ∉ function.toList) {targets : List String} (htargets : ∀ t ∈ targets, c ∉ t.toList)
    {args : List Argument} (htexts : ∀ a ∈ args, c ∉ a.text.toList)
    (hlines : ∀ a ∈ args, c ∉ (argumentLine a).toList) :
    ∀ line ∈ assigned targets (callText function args), c ∉ line.toList := by
  obtain ⟨hspace, hopen, hclose, hcomma, hequals⟩ :
      c ≠ ' ' ∧ c ≠ '(' ∧ c ≠ ')' ∧ c ≠ ',' ∧ c ≠ '=' := by simpa using hmarks
  have hsep : c ∉ ", ".toList := by simpa using ⟨hcomma, hspace⟩
  have hcall : ∀ line ∈ callText function args, c ∉ line.toList := by
    rw [callText_eq]
    split
    · have hinside : c ∉ (String.intercalate ", " (args.map (·.text))).toList :=
        not_mem_intercalate hsep (by simpa using htexts)
      have hends : c ∉ "(".toList ∧ c ∉ ")".toList := by simpa using ⟨hopen, hclose⟩
      simpa only [List.mem_singleton, forall_eq, String.toList_append, List.mem_append, not_or] using
        ⟨⟨⟨hfunction, hends.1⟩, hinside⟩, hends.2⟩
    · intro line hline
      rcases List.mem_cons.mp hline with rfl | hline
      · simpa using ⟨hfunction, hopen⟩
      rcases List.mem_append.mp hline with hline | hline
      · obtain ⟨a, ha, rfl⟩ := List.mem_map.mp hline
        exact hlines a ha
      · rw [List.mem_singleton.mp hline]
        simpa using hclose
  have hassign : c ∉ " = ".toList := by simpa using ⟨hspace, hequals, hspace⟩
  obtain ⟨first, rest, hcallText⟩ := exists_callText_eq function args
  rw [hcallText] at hcall ⊢
  by_cases hne : targets.isEmpty = true
  · simpa [assigned, hne] using hcall
  · rw [assigned, if_neg hne]
    intro line hline
    rcases List.mem_cons.mp hline with rfl | hline
    · rw [String.toList_append, List.mem_append, String.toList_append, List.mem_append, not_or, not_or]
      exact ⟨⟨not_mem_intercalate hsep htargets, hassign⟩, hcall _ List.mem_cons_self⟩
    · exact hcall line (List.mem_cons_of_mem _ hline)

theorem ne_empty_of_mem_assigned {function : String} {targets : List String} {args : List Argument} :
    ∀ line ∈ assigned targets (callText function args), line ≠ "" := by
  have hcall : ∀ line ∈ callText function args, line ≠ "" := by
    rw [callText_eq]
    split
    · simp
    · intro line hline
      rcases List.mem_cons.mp hline with rfl | hline
      · simp
      rcases List.mem_append.mp hline with hline | hline
      · obtain ⟨a, -, rfl⟩ := List.mem_map.mp hline
        simp [argumentLine]
      · rw [List.mem_singleton.mp hline]
        simp
  obtain ⟨first, rest, hcallText⟩ := exists_callText_eq function args
  rw [hcallText] at hcall ⊢
  by_cases hne : targets.isEmpty = true
  · simpa [assigned, hne] using hcall
  · rw [assigned, if_neg hne]
    intro line hline
    rcases List.mem_cons.mp hline with rfl | hline
    · simp
    · exact hcall line (List.mem_cons_of_mem _ hline)

/-- The lines of a call with its targets fill one line each. -/
theorem oneLine_of_mem_assigned {function : String} (hfunction : IsIdentifier function)
    {targets : List String} (htargets : ∀ t ∈ targets, IsIdentifier t) {args : List Argument}
    (h : ∀ a ∈ args, a.IsPlain) :
    ∀ line ∈ assigned targets (callText function args), OneLine line ∧ line ≠ "" := by
  intro line hline
  refine ⟨?_, ne_empty_of_mem_assigned line hline⟩
  exact not_mem_of_mem_assigned (by decide) hfunction.word.oneLine
    (fun t ht => (htargets t ht).word.oneLine) (fun a ha => (h a ha).oneLine)
    (fun a ha => not_mem_argumentLine (by decide) (h a ha).oneLine (h a ha).comment) line hline

/-- The lines of two calls of one function that differ only in what they pass: where a text goes on
alike behind them, they have as many arguments. -/
theorem length_eq_of_assigned {function : String} {targets : List String}
    {args args' : List Argument} (h : ∀ a ∈ args, a.IsPlain) (h' : ∀ a ∈ args', a.IsPlain)
    (hcomments : args.all (fun a => a.comment.isNone) = args'.all (fun a => a.comment.isNone))
    {rest rest' : List String}
    (heq : (assigned targets (callText function args)).map (indent ++ ·) ++ rest =
      (assigned targets (callText function args')).map (indent ++ ·) ++ rest') :
    args.length = args'.length := by
  have hfront : ∃ front, ∀ lines first, assigned targets (first :: lines) = (front ++ first) :: lines := by
    by_cases hne : targets.isEmpty = true
    · exact ⟨"", fun lines first => by simp [assigned, hne]⟩
    · exact ⟨String.intercalate ", " targets ++ " = ", fun lines first => by simp [assigned, hne]⟩
  obtain ⟨front, hfront⟩ := hfront
  rw [callText_eq, callText_eq, ← hcomments] at heq
  split at heq
  · rw [hfront, hfront] at heq
    have hline := (List.cons.inj heq).1
    refine length_eq_of_intercalate h h' ?_
    simpa [String.append_assoc] using hline
  · rw [hfront, hfront] at heq
    have hlines : args.map (fun a => indent ++ argumentLine a) ++ (indent ++ ")") :: rest =
        args'.map (fun a => indent ++ argumentLine a) ++ (indent ++ ")") :: rest' := by
      simpa [Function.comp_def] using (List.cons.inj heq).2
    -- no argument stands on a line that closes the call
    have hclosing : ∀ args : List Argument,
        indent ++ ")" ∉ args.map (fun a => indent ++ argumentLine a) := by
      intro args hmem
      obtain ⟨a, -, ha⟩ := List.mem_map.mp hmem
      have := congrArg (fun s : String => s.toList) ha
      simp [argumentLine, indent] at this
    have hmap := (Text.append_sep_inj (hclosing args) (hclosing args') hlines).1
    simpa using congrArg List.length hmap

/-- The arguments of a node pass `None` or a variable. -/
theorem passes_of_mem_arguments {f : Flow} {c : Collected} {n : Node} {a : Argument}
    (hid : ∀ port v, resolve? f c n.id port = some v → IsIdentifier v)
    (h : a ∈ arguments false (wiredInputs f c n)) :
    a.PassesNone ∨ ∃ v, IsIdentifier v ∧ a.Passes v := by
  rcases mem_arguments h with hnone | ⟨port, v, hmem, hpass⟩
  · exact Or.inl hnone
  · obtain ⟨input, -, heq⟩ := List.mem_map.mp hmem
    exact Or.inr ⟨v, hid _ v (congrArg Prod.snd heq), hpass⟩

theorem isPlain_of_mem_arguments {f : Flow} {c : Collected} {n : Node} {a : Argument}
    (hid : ∀ port v, resolve? f c n.id port = some v → IsIdentifier v)
    (h : a ∈ arguments false (wiredInputs f c n)) : a.IsPlain :=
  Argument.isPlain_of_passes (passes_of_mem_arguments hid h)
    (blank_not_mem_comment (by decide) (by decide) h)

end FlowScript.Script
