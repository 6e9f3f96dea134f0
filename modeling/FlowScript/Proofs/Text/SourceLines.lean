import FlowScript.Proofs.Source.Headers
import FlowScript.Proofs.Text.Lines

/-!
# The lines of a source

A line of a Python source ends with a line feed, a carriage return, or both. Texts without either
that a script ends by line feeds are lines of the script, whatever stands around them.

## Main results

- `sourceLines_between` — texts that are ended by line feeds are lines of the source
-/

namespace FlowScript

/-- A character that ends a line. -/
def isLineEnd (c : Char) : Bool :=
  c == '\n' || c == '\r'

/-- No line ends inside the text. -/
def Unbroken (cs : List Char) : Prop :=
  ∀ c ∈ cs, isLineEnd c = false

/-- The lines of a source. A carriage return with a line feed behind it ends one line. -/
def sourceLines (s : String) : List String :=
  (Text.cutWhere isLineEnd (unixLines s.toList)).map String.ofList

variable {as bs : List Char} {s t : String}

theorem unbroken_append : Unbroken (as ++ bs) ↔ Unbroken as ∧ Unbroken bs := by
  simp only [Unbroken, List.forall_mem_append]

theorem Unbroken.append (ha : Unbroken as) (hb : Unbroken bs) : Unbroken (as ++ bs) :=
  unbroken_append.mpr ⟨ha, hb⟩

theorem unbroken_iff : Unbroken as ↔ '\n' ∉ as ∧ '\r' ∉ as := by
  simp only [Unbroken, isLineEnd, Bool.or_eq_false_iff, beq_eq_false_iff_ne]
  constructor
  · intro h
    exact ⟨fun hn => (h _ hn).1 rfl, fun hr => (h _ hr).2 rfl⟩
  · rintro ⟨hn, hr⟩ c hc
    exact ⟨ne_of_mem_of_not_mem hc hn, ne_of_mem_of_not_mem hc hr⟩

theorem Unbroken.oneLine (h : Unbroken s.toList) : OneLine s :=
  (unbroken_iff.mp h).1

theorem unixLines_of_unbroken (h : Unbroken as) (bs : List Char) :
    unixLines (as ++ bs) = as ++ unixLines bs := by
  induction as with
  | nil => rfl
  | cons a as ih =>
    have ha : a ≠ '\r' := by
      rintro rfl
      exact absurd (h _ List.mem_cons_self) (by decide)
    rw [List.cons_append, Source.unixLines_cons_of_ne ha,
      ih (fun c hc => h c (List.mem_cons_of_mem a hc)), List.cons_append]

/-- A line feed is no first half of a line end, so lines can be told from behind it. -/
theorem exists_unixLines_append (as bs : List Char) :
    ∃ front, unixLines (as ++ '\n' :: bs) = front ++ '\n' :: unixLines bs := by
  have hfeed : unixLines ('\n' :: bs) = '\n' :: unixLines bs :=
    Source.unixLines_cons_of_ne (by decide) bs
  fun_induction unixLines as with
  | case1 => exact ⟨[], hfeed⟩
  | case2 c =>
    by_cases hc : c = '\r'
    · exact ⟨[], by simp [unixLines, hc]⟩
    · exact ⟨[c], by rw [List.singleton_append, Source.unixLines_cons_of_ne hc, hfeed]; rfl⟩
  | case3 c d cs hpair ih =>
    obtain ⟨front, hfront⟩ := ih
    refine ⟨'\n' :: front, ?_⟩
    rw [List.cons_append, List.cons_append, unixLines, if_pos hpair, hfront, List.cons_append]
  | case4 c d cs hpair ih =>
    obtain ⟨front, hfront⟩ := ih
    refine ⟨c :: front, ?_⟩
    rw [List.cons_append, List.cons_append, unixLines, if_neg hpair, ← List.cons_append, hfront,
      List.cons_append]

theorem exists_sourceLines_append (s t : String) :
    ∃ front, sourceLines (s ++ "\n" ++ t) = front ++ sourceLines t := by
  obtain ⟨front, hfront⟩ := exists_unixLines_append s.toList t.toList
  have hlist : (s ++ "\n" ++ t).toList = s.toList ++ '\n' :: t.toList := by simp
  refine ⟨(Text.cutWhere isLineEnd front).map String.ofList, ?_⟩
  rw [sourceLines, hlist, hfront, Text.cutWhere_append_sep (by rfl), List.map_append]
  rfl

theorem sourceLines_append (h : Unbroken s.toList) (t : String) :
    sourceLines (s ++ "\n" ++ t) = s :: sourceLines t := by
  have hlist : (s ++ "\n" ++ t).toList = s.toList ++ '\n' :: t.toList := by simp
  have hcut : Text.cutWhere isLineEnd s.toList = [s.toList] := Text.cutWhere_of_free h
  rw [sourceLines, hlist, unixLines_of_unbroken h,
    Source.unixLines_cons_of_ne (by decide), Text.cutWhere_append_sep (by rfl), hcut,
    List.singleton_append, List.map_cons, String.ofList_toList]
  rfl

/-- Texts that are ended by line feeds are lines of the source. -/
theorem sourceLines_between {parts : List String} (h : ∀ part ∈ parts, Unbroken part.toList)
    (s t : String) :
    parts <:+: sourceLines (s ++ "\n" ++ String.join (parts.map (· ++ "\n")) ++ t) := by
  obtain ⟨front, hfront⟩ :=
    exists_sourceLines_append s (String.join (parts.map (· ++ "\n")) ++ t)
  have hparts : sourceLines (String.join (parts.map (· ++ "\n")) ++ t) = parts ++ sourceLines t := by
    clear hfront
    induction parts with
    | nil => simp
    | cons part rest ih =>
      have hrest := ih (fun p hp => h p (List.mem_cons_of_mem part hp))
      rw [List.map_cons, String.join_cons, String.append_assoc,
        sourceLines_append (h part List.mem_cons_self), hrest, List.cons_append]
  refine ⟨front, sourceLines t, ?_⟩
  rw [String.append_assoc, hfront, hparts, List.append_assoc]

theorem mem_sourceLines {line : String} (h : Unbroken line.toList) (s t : String) :
    line ∈ sourceLines (s ++ "\n" ++ line ++ "\n" ++ t) := by
  have hline : ∀ part ∈ [line], Unbroken part.toList := by simpa using h
  have hjoin : String.join ([line].map (· ++ "\n")) = line ++ "\n" := by simp
  have hbetween := sourceLines_between hline s t
  rw [hjoin, ← String.append_assoc] at hbetween
  exact hbetween.subset List.mem_cons_self

/-! ## Joined texts -/

/-- Texts that are joined by a separator, with one more at the end. -/
theorem intercalate_append_sep (sep : String) {parts : List String} (h : parts ≠ []) :
    String.intercalate sep parts ++ sep = String.join (parts.map (· ++ sep)) := by
  induction parts with
  | nil => exact absurd rfl h
  | cons part rest ih =>
    by_cases hr : rest = []
    · simp [hr]
    · rw [String.intercalate_cons_of_ne_nil hr, List.map_cons, String.join_cons, ← ih hr,
        String.append_assoc]

/-- Each of the joined texts starts behind a line feed. -/
theorem exists_join_eq {parts : List String} {part : String} (h : part ∈ parts) (gap : String) :
    ∃ s t, "\n" ++ String.join (parts.map (· ++ (gap ++ "\n"))) =
      s ++ "\n" ++ part ++ (gap ++ "\n") ++ t := by
  obtain ⟨before, after, rfl⟩ := List.append_of_mem h
  obtain ⟨s, hs⟩ : ∃ s, "\n" ++ String.join (before.map (· ++ (gap ++ "\n"))) = s ++ "\n" := by
    rcases List.eq_nil_or_concat before with rfl | ⟨front, last, rfl⟩
    · exact ⟨"", by simp⟩
    · refine ⟨"\n" ++ String.join (front.map (· ++ (gap ++ "\n"))) ++ last ++ gap, ?_⟩
      simp [String.append_assoc]
  refine ⟨s, String.join (after.map (· ++ (gap ++ "\n"))), ?_⟩
  rw [List.map_append, List.map_cons, String.join_append, String.join_cons, ← String.append_assoc, hs]
  simp only [String.append_assoc]

end FlowScript
