import FlowScript.Script.Literal
import FlowScript.Proofs.Source.Headers
import FlowScript.Proofs.Text.Lines
import Mathlib.Data.List.DropRight
import Mathlib.Data.List.Forall2
import Mathlib.Data.List.Infix

/-!
# Lines without their shared indentation

The source of a function may be indented as a whole. Its lines stand in the script without the
longest text of spaces and tabs that all of them start with, blank lines left aside, so that they
keep their indentation relative to each other. Lines that have been dedented share no indentation,
and dedenting them again changes nothing.

## Main definitions

- `IsMargin` — a text of spaces and tabs
- `Outdented` — a line and what is left of it without a margin
- `TrimsTo` — lines and what is left of them without the blank lines at both ends
- `Outdents` — both together, for the lines of a source
- `tidied`, `withoutBlankEnds` — how the lines that are left are found

## Main results

- `prefix_sharedIndent_iff` — the shared indentation is the longest shared margin
- `dedentLines_eq_iff` — dedented lines are what is left without the shared indentation
- `sharedIndent_dedentLines`, `dedentLines_dedentLines` — nothing is left to take away
- `dedent_removes_shared_indent` — all of this, for the text that the lines become
-/

namespace FlowScript.Script

open Text

variable {lines output : List (List Char)} {line kept margin : List Char}

/-- A text of spaces and tabs. -/
def IsMargin (cs : List Char) : Prop :=
  ∀ c ∈ cs, isIndent c = true

theorem isBlank_of_isIndent {c : Char} (h : isIndent c = true) : isBlank c = true := by
  simp only [isIndent, Bool.or_eq_true, beq_iff_eq] at h
  rcases h with rfl | rfl <;> decide

theorem IsMargin.allBlank (h : IsMargin margin) : allBlank margin = true :=
  List.all_eq_true.mpr fun c hc => isBlank_of_isIndent (h c hc)

theorem allBlank_append (as bs : List Char) :
    allBlank (as ++ bs) = (allBlank as && allBlank bs) :=
  List.all_append

/-! ## The shared indentation -/

/-- What both of two texts start with is what their common front starts with. -/
theorem prefix_commonFront_iff {cs as bs : List Char} :
    cs <+: commonFront as bs ↔ cs <+: as ∧ cs <+: bs := by
  induction as generalizing cs bs with
  | nil =>
    simp only [commonFront, List.prefix_nil]
    exact ⟨fun h => ⟨h, h ▸ List.nil_prefix⟩, And.left⟩
  | cons a as ih =>
    cases bs with
    | nil =>
      simp only [commonFront, List.prefix_nil]
      exact ⟨fun h => ⟨h ▸ List.nil_prefix, h⟩, And.right⟩
    | cons b bs =>
      cases cs with
      | nil => simp only [List.nil_prefix, and_self]
      | cons c cs =>
        by_cases hab : a = b
        · subst hab
          simp only [commonFront, beq_self_eq_true, if_true, List.cons_prefix_cons, ih]
          exact and_and_left
        · have hempty : commonFront (a :: as) (b :: bs) = [] := by simp [commonFront, hab]
          simp only [hempty, List.cons_prefix_cons, List.prefix_nil, reduceCtorEq, false_iff]
          rintro ⟨⟨rfl, -⟩, rfl, -⟩
          exact hab rfl

theorem prefix_foldl_commonFront_iff {cs first : List Char} {rest : List (List Char)} :
    cs <+: rest.foldl commonFront first ↔ ∀ text ∈ first :: rest, cs <+: text := by
  induction rest generalizing first with
  | nil => simp only [List.foldl_nil, List.forall_mem_singleton]
  | cons next rest ih =>
    simp only [List.foldl_cons, ih, List.forall_mem_cons, prefix_commonFront_iff, and_assoc]

theorem prefix_takeWhile_iff {p : Char → Bool} {cs : List Char} :
    cs <+: line.takeWhile p ↔ (∀ c ∈ cs, p c = true) ∧ cs <+: line := by
  constructor
  · intro h
    exact ⟨fun c hc => List.mem_takeWhile_imp (h.subset hc), h.trans (List.takeWhile_prefix p)⟩
  · rintro ⟨hall, rest, rfl⟩
    rw [List.takeWhile_append_of_pos hall]
    exact List.prefix_append _ _

theorem sharedIndent_of_blank (h : ∀ line ∈ lines, allBlank line = true) :
    sharedIndent lines = [] := by
  have hnone : lines.filter (fun l => !allBlank l) = [] :=
    List.filter_eq_nil_iff.mpr fun line hline => by simp [h line hline]
  rw [sharedIndent, hnone]
  rfl

/-- The shared indentation is the longest margin of all lines that are not blank. -/
theorem prefix_sharedIndent_iff (h : ∃ line ∈ lines, allBlank line = false) {cs : List Char} :
    cs <+: sharedIndent lines ↔
      IsMargin cs ∧ ∀ line ∈ lines, allBlank line = false → cs <+: line := by
  obtain ⟨line, hline, htext⟩ := h
  have hmem : line ∈ lines.filter (fun l => !allBlank l) :=
    List.mem_filter.mpr ⟨hline, by simp [htext]⟩
  -- without a line to look at, every text would be shared, but none is taken away
  have hfront : cs <+: sharedIndent lines ↔
      ∀ l ∈ lines.filter (fun l => !allBlank l), cs <+: l.takeWhile isIndent := by
    unfold sharedIndent
    cases hfilter : lines.filter (fun l => !allBlank l) with
    | nil => simp [hfilter] at hmem
    | cons first rest =>
      simp only [List.map_cons, prefix_foldl_commonFront_iff, List.forall_mem_cons,
        List.forall_mem_map]
  simp only [hfront, prefix_takeWhile_iff, List.mem_filter, Bool.not_eq_true', and_imp]
  constructor
  · intro hall
    exact ⟨(hall line hline htext).1, fun l hl hl' => (hall l hl hl').2⟩
  · rintro ⟨hmargin, hall⟩ l hl hl'
    exact ⟨hmargin, hall l hl hl'⟩

theorem isMargin_sharedIndent (lines : List (List Char)) : IsMargin (sharedIndent lines) := by
  by_cases h : ∃ line ∈ lines, allBlank line = false
  · exact ((prefix_sharedIndent_iff h).mp List.prefix_rfl).1
  · have hblank : ∀ line ∈ lines, allBlank line = true := by simpa using h
    rw [sharedIndent_of_blank hblank]
    exact fun c hc => absurd hc List.not_mem_nil

theorem startsWith_sharedIndent (hline : line ∈ lines) (htext : allBlank line = false) :
    sharedIndent lines <+: line :=
  ((prefix_sharedIndent_iff ⟨line, hline, htext⟩).mp List.prefix_rfl).2 line hline htext

/-- The shared indentation is made of blanks. -/
theorem isBlank_of_mem_sharedIndent {c : Char} (h : c ∈ sharedIndent lines) :
    isBlank c = true :=
  isBlank_of_isIndent (isMargin_sharedIndent lines c h)

/-- No indentation is shared when the lines do not all begin with the same space or tab. -/
theorem sharedIndent_eq_nil_iff (h : ∃ line ∈ lines, allBlank line = false) :
    sharedIndent lines = [] ↔ ¬ ∃ c, isIndent c = true ∧
      ∀ line ∈ lines, allBlank line = false → line.head? = some c := by
  have hfirst : ∀ c, [c] <+: sharedIndent lines ↔ isIndent c = true ∧
      ∀ line ∈ lines, allBlank line = false → line.head? = some c := by
    intro c
    simp only [prefix_sharedIndent_iff h, IsMargin, List.forall_mem_singleton,
      List.singleton_prefix_iff_head?_eq_some]
  simp only [← hfirst, List.singleton_prefix_iff_head?_eq_some, not_exists]
  exact List.head?_eq_none_iff.symm.trans Option.eq_none_iff_forall_ne_some

/-! ## One line -/

/-- What is left of a line without a margin and without the spaces and tabs at its end. Nothing is
left of a blank line. -/
inductive Outdented (margin : List Char) : List Char → List Char → Prop
  | blank {line : List Char} (hline : allBlank line = true) : Outdented margin line []
  | text {line kept tail : List Char} (hline : line = margin ++ kept ++ tail)
      (hkept : allBlank kept = false) (hlast : ∀ c ∈ kept.getLast?, isIndent c = false)
      (htail : IsMargin tail) : Outdented margin line kept

/-- A line without the given indentation and without blanks at its end. -/
def tidied (indent line : List Char) : List Char :=
  if allBlank line then [] else dropEndWhile isIndent (dropFront indent line)

theorem tidied_of_blank (h : allBlank line = true) : tidied margin line = [] :=
  if_pos h

theorem tidied_append {rest : List Char} (h : allBlank (margin ++ rest) = false) :
    tidied margin (margin ++ rest) = dropEndWhile isIndent rest := by
  have hfront : dropFront? margin (margin ++ rest) = some rest :=
    Source.dropFront?_eq_some_iff.mpr rfl
  rw [tidied, if_neg (by simp [h]), dropFront, hfront, Option.getD_some]

namespace Outdented

theorem allBlank_eq (h : Outdented margin line kept) (hmargin : IsMargin margin) :
    allBlank line = allBlank kept := by
  cases h with
  | blank hline => rw [hline]; rfl
  | text hline hkept _ htail =>
    rw [hline, allBlank_append, allBlank_append, hmargin.allBlank, htail.allBlank, Bool.true_and,
      Bool.and_true]

theorem eq_nil_of_allBlank (h : Outdented margin line kept) (hkept : allBlank kept = true) :
    kept = [] := by
  cases h with
  | blank => rfl
  | text _ hkept' => rw [hkept] at hkept'; cases hkept'

theorem subset (h : Outdented margin line kept) : kept ⊆ line := by
  cases h with
  | blank => exact List.nil_subset line
  | text hline =>
    rw [hline]
    exact fun c hc => List.mem_append_left _ (List.mem_append_right _ hc)

theorem startsWith_append (h : Outdented margin line kept) (htext : allBlank line = false) :
    margin ++ kept <+: line := by
  cases h with
  | blank hline => rw [hline] at htext; cases htext
  | text hline => exact hline ▸ List.prefix_append _ _

/-- What is left of a line is left as it is. -/
theorem again (h : Outdented margin line kept) : Outdented [] kept kept := by
  cases h with
  | blank => exact .blank rfl
  | text _ hkept hlast =>
    exact .text (by simp) hkept hlast (fun c hc => absurd hc List.not_mem_nil)

theorem tidied_eq (h : Outdented margin line kept) (hmargin : IsMargin margin) :
    tidied margin line = kept := by
  have hblank := h.allBlank_eq hmargin
  cases h with
  | blank hline => exact tidied_of_blank hline
  | text hline hkept hlast htail =>
    rw [hkept, hline, List.append_assoc] at hblank
    rw [hline, List.append_assoc, tidied_append hblank, dropEndWhile_append hlast,
      dropEndWhile_of_all htail, List.append_nil]

end Outdented

theorem outdented_tidied (hmargin : IsMargin margin)
    (hfront : allBlank line = false → margin <+: line) :
    Outdented margin line (tidied margin line) := by
  cases hline : allBlank line with
  | true =>
    rw [tidied_of_blank hline]
    exact .blank hline
  | false =>
    obtain ⟨rest, rfl⟩ := hfront hline
    obtain ⟨tail, hrest, htail⟩ := exists_eq_dropEndWhile_append isIndent rest
    have hsplit : margin ++ rest = margin ++ dropEndWhile isIndent rest ++ tail := by
      rw [List.append_assoc, ← hrest]
    have hkept : allBlank (dropEndWhile isIndent rest) = false := by
      rw [hsplit, allBlank_append, allBlank_append, hmargin.allBlank, IsMargin.allBlank htail,
        Bool.true_and, Bool.and_true] at hline
      exact hline
    rw [tidied_append hline]
    exact .text hsplit hkept (fun c hc => not_of_mem_getLast?_dropEndWhile hc) htail

/-! ## Blank lines at both ends -/

/-- A part of the lines that neither starts nor ends with a blank line, with nothing but blank lines
around it. -/
structure TrimsTo (lines middle : List (List Char)) : Prop where
  around : ∃ front back, lines = front ++ middle ++ back ∧
    ∀ line ∈ front ++ back, allBlank line = true
  first : ∀ line ∈ middle.head?, allBlank line = false
  last : ∀ line ∈ middle.getLast?, allBlank line = false

theorem mem_of_mem_ends {front middle back : List (List Char)} (h : line ∈ front ++ back) :
    line ∈ front ++ middle ++ back := by
  simp only [List.mem_append] at h ⊢
  exact h.imp_left .inl

theorem exists_trimsTo (lines : List (List Char)) : ∃ middle, TrimsTo lines middle := by
  refine ⟨(lines.dropWhile allBlank).rdropWhile allBlank,
    ⟨lines.takeWhile allBlank, (lines.dropWhile allBlank).rtakeWhile allBlank, ?_, ?_⟩, ?_, ?_⟩
  · rw [List.append_assoc, List.rdropWhile_append_rtakeWhile, List.takeWhile_append_dropWhile]
  · exact List.forall_mem_append.mpr
      ⟨fun _ => List.mem_takeWhile_imp, fun _ => List.mem_rtakeWhile_imp⟩
  · intro line hline
    have hhead : (lines.dropWhile allBlank).head? = some line := by
      obtain ⟨back, hback⟩ := List.rdropWhile_prefix allBlank (l := lines.dropWhile allBlank)
      rw [← hback, List.head?_append, Option.mem_def.mp hline, Option.some_or]
    exact not_of_mem_head?_dropWhile hhead
  · intro line hline
    rw [List.rdropWhile, List.getLast?_reverse] at hline
    exact not_of_mem_head?_dropWhile hline

namespace TrimsTo

variable {middle : List (List Char)}

theorem subset (h : TrimsTo lines middle) : middle ⊆ lines := by
  obtain ⟨front, back, rfl, -⟩ := h.around
  exact fun line hline => List.mem_append_left _ (List.mem_append_right _ hline)

theorem mem_of_text (h : TrimsTo lines middle) (hline : line ∈ lines)
    (htext : allBlank line = false) : line ∈ middle := by
  obtain ⟨front, back, rfl, hends⟩ := h.around
  obtain ⟨hfront, hback⟩ := List.forall_mem_append.mp hends
  have hsolid : ¬ allBlank line = true := by simp [htext]
  rcases List.mem_append.mp hline with hline | hline
  · exact (List.mem_append.mp hline).resolve_left fun hmem => hsolid (hfront line hmem)
  · exact absurd (hback line hline) hsolid

theorem self (h : TrimsTo lines middle) : TrimsTo middle middle :=
  ⟨⟨[], [], by simp, by simp⟩, h.first, h.last⟩

/-- Lines that are changed one by one have the same middle as long as blank lines stay blank, and
the others do not become blank. -/
theorem map (h : TrimsTo lines middle) {f : List Char → List Char}
    (hf : ∀ line ∈ lines, allBlank (f line) = allBlank line) :
    TrimsTo (lines.map f) (middle.map f) where
  around := by
    obtain ⟨front, back, rfl, hends⟩ := h.around
    refine ⟨front.map f, back.map f, by rw [List.map_append, List.map_append], ?_⟩
    rw [← List.map_append, List.forall_mem_map]
    intro line hline
    rw [hf line (mem_of_mem_ends hline)]
    exact hends line hline
  first := by
    intro _ hkept
    rw [List.head?_map, Option.mem_def, Option.map_eq_some_iff] at hkept
    obtain ⟨line, hline, rfl⟩ := hkept
    rw [hf line (h.subset (List.mem_of_head? hline))]
    exact h.first line hline
  last := by
    intro _ hkept
    rw [List.getLast?_map, Option.mem_def, Option.map_eq_some_iff] at hkept
    obtain ⟨line, hline, rfl⟩ := hkept
    rw [hf line (h.subset (List.mem_of_getLast? hline))]
    exact h.last line hline

end TrimsTo

/-- Drops the empty lines at both ends. -/
def withoutBlankEnds (lines : List (List Char)) : List (List Char) :=
  ((lines.dropWhile (·.isEmpty)).reverse.dropWhile (·.isEmpty)).reverse

theorem dropWhile_isEmpty_of_text (h : ∀ line ∈ lines.head?, allBlank line = false) :
    lines.dropWhile (·.isEmpty) = lines := by
  cases lines with
  | nil => rfl
  | cons first rest =>
    refine List.dropWhile_cons_of_neg fun hempty => ?_
    have htext := h first rfl
    rw [List.isEmpty_iff.mp hempty] at htext
    cases htext

theorem TrimsTo.withoutBlankEnds_eq {middle : List (List Char)} (h : TrimsTo lines middle)
    (hempty : ∀ line ∈ lines, allBlank line = true → line = []) :
    withoutBlankEnds lines = middle := by
  obtain ⟨front, back, rfl, hends⟩ := h.around
  have hblank : ∀ line ∈ front ++ back, line.isEmpty = true := by
    intro line hline
    exact List.isEmpty_iff.mpr (hempty line (mem_of_mem_ends hline) (hends line hline))
  obtain ⟨hfront, hback⟩ := List.forall_mem_append.mp hblank
  rw [withoutBlankEnds, List.append_assoc, List.dropWhile_append_of_pos hfront]
  -- without a middle, the lines behind the front are dropped with it
  by_cases hmiddle : middle = []
  · rw [hmiddle, List.nil_append, List.dropWhile_eq_nil_iff.mpr hback]
    rfl
  · have hstart : ∀ line ∈ (middle ++ back).head?, allBlank line = false := by
      rw [List.head?_append_of_ne_nil _ hmiddle]
      exact h.first
    have hend : ∀ line ∈ middle.reverse.head?, allBlank line = false := by
      rw [List.head?_reverse]
      exact h.last
    have hback' : ∀ line ∈ back.reverse, line.isEmpty = true :=
      fun line hline => hback line (List.mem_reverse.mp hline)
    rw [dropWhile_isEmpty_of_text hstart, List.reverse_append,
      List.dropWhile_append_of_pos hback', dropWhile_isEmpty_of_text hend, List.reverse_reverse]

/-! ## Dedented lines -/

/-- What is left of lines without a margin: blank lines are dropped at both ends only, and from each
line between them the margin is taken away. -/
def Outdents (margin : List Char) (lines output : List (List Char)) : Prop :=
  ∃ middle, TrimsTo lines middle ∧ List.Forall₂ (Outdented margin) middle output

theorem outdented_sharedIndent (hline : line ∈ lines) :
    Outdented (sharedIndent lines) line (tidied (sharedIndent lines) line) :=
  outdented_tidied (isMargin_sharedIndent lines) (startsWith_sharedIndent hline)

theorem allBlank_tidied (hline : line ∈ lines) :
    allBlank (tidied (sharedIndent lines) line) = allBlank line :=
  ((outdented_sharedIndent hline).allBlank_eq (isMargin_sharedIndent lines)).symm

/-- The lines of the middle are dedented one by one. -/
theorem TrimsTo.dedentLines_eq {middle : List (List Char)} (h : TrimsTo lines middle) :
    dedentLines lines = middle.map (tidied (sharedIndent lines)) := by
  have hmap := h.map (fun _ => allBlank_tidied)
  refine hmap.withoutBlankEnds_eq (List.forall_mem_map.mpr fun line hline hblank => ?_)
  exact (outdented_sharedIndent hline).eq_nil_of_allBlank hblank

/-- The dedented lines are what is left of the lines without their shared indentation. -/
theorem dedentLines_eq_iff :
    dedentLines lines = output ↔ Outdents (sharedIndent lines) lines output := by
  constructor
  · rintro rfl
    obtain ⟨middle, h⟩ := exists_trimsTo lines
    refine ⟨middle, h, ?_⟩
    rw [h.dedentLines_eq, List.forall₂_map_right_iff, List.forall₂_same]
    exact fun line hline => outdented_sharedIndent (h.subset hline)
  · rintro ⟨middle, h, hpairs⟩
    rw [h.dedentLines_eq]
    clear h
    induction hpairs with
    | nil => rfl
    | cons hline _ ih =>
      rw [List.map_cons, hline.tidied_eq (isMargin_sharedIndent lines), ih]

theorem exists_of_mem_dedentLines (h : kept ∈ dedentLines lines) :
    ∃ line ∈ lines, Outdented (sharedIndent lines) line kept := by
  obtain ⟨middle, htrims⟩ := exists_trimsTo lines
  rw [htrims.dedentLines_eq] at h
  obtain ⟨line, hline, rfl⟩ := List.mem_map.mp h
  exact ⟨line, htrims.subset hline, outdented_sharedIndent (htrims.subset hline)⟩

theorem exists_mem_dedentLines (hline : line ∈ lines) (htext : allBlank line = false) :
    ∃ kept ∈ dedentLines lines, Outdented (sharedIndent lines) line kept := by
  obtain ⟨middle, htrims⟩ := exists_trimsTo lines
  rw [htrims.dedentLines_eq]
  exact ⟨_, List.mem_map_of_mem (htrims.mem_of_text hline htext), outdented_sharedIndent hline⟩

/-- A margin that dedented lines share would be shared behind the one that was taken away. -/
theorem sharedIndent_dedentLines (lines : List (List Char)) :
    sharedIndent (dedentLines lines) = [] := by
  have hmargin := isMargin_sharedIndent lines
  by_cases h : ∃ kept ∈ dedentLines lines, allBlank kept = false
  · obtain ⟨kept, hkept, hsolid⟩ := h
    obtain ⟨line, hline, hout⟩ := exists_of_mem_dedentLines hkept
    have htext : ∃ line ∈ lines, allBlank line = false :=
      ⟨line, hline, (hout.allBlank_eq hmargin).trans hsolid⟩
    have hlonger :
        sharedIndent lines ++ sharedIndent (dedentLines lines) <+: sharedIndent lines := by
      refine (prefix_sharedIndent_iff htext).mpr ⟨?_, fun line hline htext => ?_⟩
      · exact List.forall_mem_append.mpr ⟨hmargin, isMargin_sharedIndent _⟩
      · obtain ⟨kept, hkept, hout⟩ := exists_mem_dedentLines hline htext
        have hfront : sharedIndent (dedentLines lines) <+: kept :=
          startsWith_sharedIndent hkept ((hout.allBlank_eq hmargin).symm.trans htext)
        exact ((List.prefix_append_right_inj _).mpr hfront).trans (hout.startsWith_append htext)
    have hlength := hlonger.length_le
    rw [List.length_append] at hlength
    exact List.eq_nil_of_length_eq_zero (by omega)
  · exact sharedIndent_of_blank (by simpa using h)

theorem dedentLines_dedentLines (lines : List (List Char)) :
    dedentLines (dedentLines lines) = dedentLines lines := by
  obtain ⟨middle, htrims⟩ := exists_trimsTo lines
  have hself : TrimsTo (dedentLines lines) (dedentLines lines) := by
    rw [htrims.dedentLines_eq]
    exact (htrims.map fun _ => allBlank_tidied).self
  refine dedentLines_eq_iff.mpr ⟨_, hself, List.forall₂_same.mpr fun kept hkept => ?_⟩
  obtain ⟨line, -, hout⟩ := exists_of_mem_dedentLines hkept
  rw [sharedIndent_dedentLines]
  exact hout.again

/-! ## The text of dedented lines -/

theorem cut_dedent (hlines : ∀ line ∈ lines, '\n' ∉ line) (hne : dedentLines lines ≠ []) :
    cut '\n' (dedent lines) = dedentLines lines := by
  refine cut_glue hne fun kept hkept hmem => ?_
  obtain ⟨line, hline, hout⟩ := exists_of_mem_dedentLines hkept
  exact hlines line hline (hout.subset hmem)

theorem dedent_cut_dedent (hlines : ∀ line ∈ lines, '\n' ∉ line) :
    dedent (cut '\n' (dedent lines)) = dedent lines := by
  by_cases hnil : dedentLines lines = []
  · have hempty : dedent lines = [] := by rw [dedent, hnil]; rfl
    rw [hempty]
    rfl
  · rw [cut_dedent hlines hnil, dedent, dedent, dedentLines_dedentLines]

/-- The lines of a source lose exactly the indentation that they share. There is one text of spaces
and tabs that stands, in each line with something on it, in front of what is left of the line, and
behind that there are only spaces and tabs; blank lines become empty and are dropped at both ends
only. The text that is left has no shared indentation any more, and does not change when it is
dedented again. What is taken away is the longest such text: any other one that all of these lines
start with is a front of it. -/
theorem dedent_removes_shared_indent (hlines : ∀ line ∈ lines, '\n' ∉ line) :
    ∃ margin output, IsMargin margin ∧ Outdents margin lines output ∧
      dedent lines = glue ['\n'] output ∧
      dedent (cut '\n' (dedent lines)) = dedent lines ∧
      ((∃ line ∈ lines, allBlank line = false) →
        cut '\n' (dedent lines) = output ∧
        (¬ ∃ c, isIndent c = true ∧
          ∀ kept ∈ output, allBlank kept = false → kept.head? = some c) ∧
        ∀ indent, IsMargin indent →
          ((∀ line ∈ lines, allBlank line = false → indent <+: line) ↔ indent <+: margin)) := by
  have hmargin := isMargin_sharedIndent lines
  refine ⟨sharedIndent lines, dedentLines lines, hmargin, dedentLines_eq_iff.mp rfl, rfl,
    dedent_cut_dedent hlines, ?_⟩
  rintro ⟨line, hline, htext⟩
  obtain ⟨kept, hkept, hout⟩ := exists_mem_dedentLines hline htext
  have hsolid : allBlank kept = false := (hout.allBlank_eq hmargin).symm.trans htext
  refine ⟨cut_dedent hlines (List.ne_nil_of_mem hkept), ?_, fun indent hindent => ?_⟩
  · exact (sharedIndent_eq_nil_iff ⟨kept, hkept, hsolid⟩).mp (sharedIndent_dedentLines lines)
  · rw [prefix_sharedIndent_iff ⟨line, hline, htext⟩]
    exact ⟨fun h => ⟨hindent, h⟩, And.right⟩

/-- Lines that are indented by tabs and spaces in different ways, with blank ones around and between
them. -/
def mixedLines : List (List Char) :=
  ["\u00a0".toList, "\t  def f():".toList, " ".toList, "\t \treturn 1 \t".toList, "\t".toList]

/-- The tab and the space that both lines start with are taken away, and not the space or the tab
behind them. -/
theorem mixedLines_lose_shared_indent :
    (∀ line ∈ mixedLines, '\n' ∉ line) ∧ (∃ line ∈ mixedLines, allBlank line = false) ∧
      Outdents ['\t', ' '] mixedLines [" def f():".toList, [], "\treturn 1".toList] ∧
      dedent mixedLines = " def f():\n\n\treturn 1".toList ∧
      dedent (cut '\n' (dedent mixedLines)) = dedent mixedLines := by
  have hfree : ∀ line ∈ mixedLines, '\n' ∉ line := by decide
  have htext : ∃ line ∈ mixedLines, allBlank line = false := by decide
  obtain ⟨margin, output, hmargin, hout, -, hagain, hsolid⟩ := dedent_removes_shared_indent hfree
  obtain ⟨hcut, -, hlongest⟩ := hsolid htext
  have hdedent : dedent mixedLines = " def f():\n\n\treturn 1".toList := by decide
  have houtput : output = [" def f():".toList, [], "\treturn 1".toList] := by
    rw [← hcut, hdedent]
    decide
  have hfront : ['\t', ' '] <+: margin :=
    (hlongest ['\t', ' '] (by simp [IsMargin, isIndent])).mp (by decide)
  have hback : margin <+: commonFront "\t  def f():".toList "\t \treturn 1 \t".toList := by
    have hshared := (hlongest margin hmargin).mpr List.prefix_rfl
    exact prefix_commonFront_iff.mpr
      ⟨hshared _ (by decide) (by decide), hshared _ (by decide) (by decide)⟩
  obtain rfl : ['\t', ' '] = margin := hfront.eq_of_length_le hback.length_le
  exact ⟨hfree, htext, houtput ▸ hout, hdedent, hagain⟩

end FlowScript.Script
