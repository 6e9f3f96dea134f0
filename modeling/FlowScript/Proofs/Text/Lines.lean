import FlowScript.Text.Blank
import Mathlib.Data.List.Basic
import Mathlib.Data.List.TakeWhile

/-!
# Lines of composed texts

How a text that is put together from parts falls into pieces at a separator, and into lines.

## Main results

- `Text.cutWhere_append_sep` — a separator between two texts separates their pieces
- `Text.glue_cut`, `Text.cut_glue` — cutting and glueing undo each other
- `Text.append_sep_inj` — what stands before the first separator and behind it
- `lines_intercalate` — texts joined by line feeds have the lines of the texts
- `lines_append_of_free` — a front without line feed is part of the first line
- `Text.strip_append` — a text between blanks is found
-/

namespace FlowScript

namespace Text

variable {p : Char → Bool} {c : Char} {cs : List Char}

theorem cutWhere_nil (p : Char → Bool) : cutWhere p [] = [[]] :=
  rfl

theorem cutWhere_cons_sep (h : p c = true) : cutWhere p (c :: cs) = [] :: cutWhere p cs := by
  simp [cutWhere, h]

theorem cutWhere_ne_nil (p : Char → Bool) (cs : List Char) : cutWhere p cs ≠ [] := by
  cases cs with
  | nil => simp [cutWhere]
  | cons c cs =>
    simp only [cutWhere, List.foldr_cons]
    split
    · simp
    · split <;> simp

/-- A character that is no separator is put in front of the first piece. -/
theorem cutWhere_cons_of_not (h : p c = false) {piece : List Char} {rest : List (List Char)}
    (hcs : cutWhere p cs = piece :: rest) : cutWhere p (c :: cs) = (c :: piece) :: rest := by
  unfold cutWhere at hcs ⊢
  rw [List.foldr_cons, hcs]
  simp [h]

/-- A separator between two texts separates their pieces. -/
theorem cutWhere_append_sep (h : p c = true) (as bs : List Char) :
    cutWhere p (as ++ c :: bs) = cutWhere p as ++ cutWhere p bs := by
  induction as with
  | nil => simp [cutWhere_cons_sep h, cutWhere_nil]
  | cons a as ih =>
    cases ha : p a with
    | true =>
      rw [List.cons_append, cutWhere_cons_sep ha, cutWhere_cons_sep ha, ih]
      rfl
    | false =>
      obtain ⟨piece, rest, hp⟩ := List.exists_cons_of_ne_nil (cutWhere_ne_nil p as)
      rw [List.cons_append, cutWhere_cons_of_not ha hp,
        cutWhere_cons_of_not ha (by rw [ih, hp, List.cons_append]), List.cons_append]

/-- A front without separator is part of the first piece. -/
theorem cutWhere_append_of_free {front : List Char} (hfree : ∀ a ∈ front, p a = false)
    {piece : List Char} {rest : List (List Char)} (hcs : cutWhere p cs = piece :: rest) :
    cutWhere p (front ++ cs) = (front ++ piece) :: rest := by
  induction front with
  | nil => exact hcs
  | cons a front ih =>
    exact cutWhere_cons_of_not (hfree a List.mem_cons_self)
      (ih (fun b hb => hfree b (List.mem_cons_of_mem a hb)))

/-- No piece holds a separator. -/
theorem cutWhere_free {piece : List Char} (h : piece ∈ cutWhere p cs) :
    ∀ a ∈ piece, p a = false := by
  induction cs generalizing piece with
  | nil =>
    rw [cutWhere_nil, List.mem_singleton] at h
    simp [h]
  | cons c cs ih =>
    cases hc : p c with
    | true =>
      rw [cutWhere_cons_sep hc] at h
      rcases List.mem_cons.mp h with rfl | h
      · simp
      · exact ih h
    | false =>
      obtain ⟨first, rest, hf⟩ := List.exists_cons_of_ne_nil (cutWhere_ne_nil p cs)
      rw [cutWhere_cons_of_not hc hf] at h
      rcases List.mem_cons.mp h with rfl | h
      · intro a ha
        rcases List.mem_cons.mp ha with rfl | ha
        · exact hc
        · exact ih (hf ▸ List.mem_cons_self) a ha
      · exact ih (hf ▸ List.mem_cons_of_mem first h)

/-- A text without separators is one piece. -/
theorem cutWhere_of_free (h : ∀ c ∈ cs, p c = false) : cutWhere p cs = [cs] := by
  have hcut := cutWhere_append_of_free h (cutWhere_nil p)
  rwa [List.append_nil] at hcut

theorem beq_of_not_mem {sep : Char} (h : sep ∉ cs) : ∀ c ∈ cs, (c == sep) = false := by
  intro c hc
  simpa using ne_of_mem_of_not_mem hc h

theorem bne_of_not_mem {sep : Char} (h : sep ∉ cs) : ∀ c ∈ cs, (c != sep) = true := by
  intro c hc
  simpa using ne_of_mem_of_not_mem hc h

theorem cut_of_free {sep : Char} (h : sep ∉ cs) : cut sep cs = [cs] :=
  cutWhere_of_free (beq_of_not_mem h)

theorem cut_append_sep (sep : Char) (as bs : List Char) :
    cut sep (as ++ sep :: bs) = cut sep as ++ cut sep bs :=
  cutWhere_append_sep (by simp) as bs

theorem glue_cons_cons (sep piece next : List Char) (rest : List (List Char)) :
    glue sep (piece :: next :: rest) = piece ++ sep ++ glue sep (next :: rest) :=
  rfl

/-- A glued text holds its pieces. -/
theorem mem_glue_of_mem {sep piece : List Char} {pieces : List (List Char)} (h : piece ∈ pieces)
    (hc : c ∈ piece) : c ∈ glue sep pieces := by
  fun_induction glue sep pieces with
  | case1 => cases h
  | case2 only => exact List.mem_singleton.mp h ▸ hc
  | case3 first rest _ ih =>
    rcases List.mem_cons.mp h with rfl | h
    · exact List.mem_append_left _ (List.mem_append_left _ hc)
    · exact List.mem_append_right _ (ih h)

/-- A glued text holds nothing but its pieces and separators. -/
theorem mem_glue {sep : List Char} {pieces : List (List Char)} (h : c ∈ glue sep pieces) :
    c ∈ sep ∨ ∃ piece ∈ pieces, c ∈ piece := by
  fun_induction glue sep pieces with
  | case1 => cases h
  | case2 only => exact .inr ⟨only, List.mem_singleton_self only, h⟩
  | case3 first rest _ ih =>
    rcases List.mem_append.mp h with h | h
    · rcases List.mem_append.mp h with h | h
      · exact .inr ⟨first, List.mem_cons_self, h⟩
      · exact .inl h
    · rcases ih h with h | ⟨piece, hpiece, h⟩
      · exact .inl h
      · exact .inr ⟨piece, List.mem_cons_of_mem first hpiece, h⟩

/-- One more piece is glued behind a separator. -/
theorem glue_concat (sep : List Char) {pieces : List (List Char)} (hne : pieces ≠ [])
    (piece : List Char) : glue sep (pieces ++ [piece]) = glue sep pieces ++ sep ++ piece := by
  fun_induction glue sep pieces with
  | case1 => exact absurd rfl hne
  | case2 only => simp [glue]
  | case3 first rest hrest ih =>
    cases rest with
    | nil => exact absurd rfl hrest
    | cons second rest =>
      simp only [List.cons_append, glue, List.append_assoc] at ih ⊢
      rw [ih (by simp)]

/-- The pieces of a text, glued together again. -/
theorem glue_cut (sep : Char) (cs : List Char) : glue [sep] (cut sep cs) = cs := by
  induction cs with
  | nil => rfl
  | cons c cs ih =>
    obtain ⟨piece, rest, hcs⟩ := List.exists_cons_of_ne_nil (cutWhere_ne_nil (· == sep) cs)
    rw [cut, hcs] at ih
    by_cases hc : c = sep
    · subst hc
      rw [cut, cutWhere_cons_sep (by simp), hcs]
      simpa [glue] using ih
    · rw [cut, cutWhere_cons_of_not (by simpa using hc) hcs, ← ih]
      cases rest <;> rfl

/-- Pieces without a separator are found again where they were glued together. -/
theorem cut_glue {sep : Char} {pieces : List (List Char)} (hne : pieces ≠ [])
    (hfree : ∀ piece ∈ pieces, sep ∉ piece) : cut sep (glue [sep] pieces) = pieces := by
  induction pieces with
  | nil => exact absurd rfl hne
  | cons piece rest ih =>
    have hcut : cut sep piece = [piece] := cut_of_free (hfree piece List.mem_cons_self)
    cases rest with
    | nil => exact hcut
    | cons next rest =>
      have ih := ih (by simp) (fun p hp => hfree p (List.mem_cons_of_mem piece hp))
      rw [glue_cons_cons, List.append_assoc, List.singleton_append, cut_append_sep, hcut, ih,
        List.singleton_append]

/-- What stands behind the last separator is the last piece. -/
theorem takeWhile_reverse_of_cut {sep : Char} {front : List (List Char)} {last : List Char}
    (h : cut sep cs = front ++ [last]) : cs.reverse.takeWhile (· != sep) = last.reverse := by
  have hfree : ∀ c ∈ last.reverse, (c != sep) = true := by
    intro c hc
    have hmem : last ∈ cut sep cs := h ▸ List.mem_append_right _ (List.mem_singleton_self last)
    simpa using cutWhere_free hmem c (List.mem_reverse.mp hc)
  have hglue := glue_cut sep cs
  rw [h] at hglue
  by_cases hne : front = []
  · subst hne
    rw [← hglue]
    exact List.takeWhile_eq_self_iff.mpr hfree
  · rw [glue_concat [sep] hne] at hglue
    rw [← hglue, List.reverse_append, List.takeWhile_append_of_pos hfree]
    simp

/-- Two lists that hold no separator are known from what a separator joins them to. -/
theorem append_sep_inj {α : Type} {c : α} {as as' bs bs' : List α} (h : c ∉ as) (h' : c ∉ as')
    (heq : as ++ c :: bs = as' ++ c :: bs') : as = as' ∧ bs = bs' := by
  rcases List.append_eq_append_iff.mp heq with ⟨r, rfl, hr⟩ | ⟨r, rfl, hr⟩
  · cases r with
    | nil => simpa using hr
    | cons d r =>
      obtain ⟨rfl, -⟩ := List.cons.inj hr
      exact absurd (by simp) h'
  · cases r with
    | nil => simpa [eq_comm] using hr
    | cons d r =>
      obtain ⟨rfl, -⟩ := List.cons.inj hr
      exact absurd (by simp) h

/-! ## Blanks at the ends -/

theorem dropEndWhile_append (hlast : ∀ c ∈ cs.getLast?, p c = false) (more : List Char) :
    dropEndWhile p (cs ++ more) = cs ++ dropEndWhile p more := by
  have hkeep : cs.reverse.dropWhile p = cs.reverse := by
    rw [← List.head?_reverse] at hlast
    cases hcs : cs.reverse with
    | nil => rfl
    | cons c rest =>
      have hc : p c = false := hlast c (by simp [hcs])
      exact List.dropWhile_cons_of_neg (by simp [hc])
  unfold dropEndWhile
  rw [List.reverse_append, List.dropWhile_append]
  split
  · next hempty =>
    rw [hkeep, List.isEmpty_iff.mp hempty]
    simp
  · simp

theorem dropEndWhile_of_all (h : ∀ c ∈ cs, p c = true) : dropEndWhile p cs = [] := by
  simpa [dropEndWhile] using h

/-- The characters that are dropped at the end of a text. -/
theorem exists_eq_dropEndWhile_append (p : Char → Bool) (cs : List Char) :
    ∃ back, cs = dropEndWhile p cs ++ back ∧ ∀ c ∈ back, p c = true := by
  refine ⟨(cs.reverse.takeWhile p).reverse, ?_, fun c hc =>
    List.mem_takeWhile_imp (List.mem_reverse.mp hc)⟩
  rw [dropEndWhile, ← List.reverse_append, List.takeWhile_append_dropWhile, List.reverse_reverse]

/-- Dropping from the front stops at an element that is kept. -/
theorem not_of_mem_head?_dropWhile {α : Type} {p : α → Bool} {xs : List α} {x : α}
    (h : x ∈ (xs.dropWhile p).head?) : p x = false := by
  have hnot := List.head?_dropWhile_not p xs
  rwa [Option.mem_def.mp h] at hnot

theorem not_of_mem_getLast?_dropEndWhile (h : c ∈ (dropEndWhile p cs).getLast?) : p c = false := by
  rw [dropEndWhile, List.getLast?_reverse] at h
  exact not_of_mem_head?_dropWhile h

theorem strip_eq_nil (h : ∀ c ∈ cs, isBlank c = true) : strip cs = [] := by
  rw [strip, stripWhile, List.dropWhile_eq_nil_iff.mpr h]
  rfl

/-- Behind a margin of blanks, a text that neither starts nor ends with one is found. -/
theorem strip_append {margin text : List Char} (hmargin : ∀ c ∈ margin, isBlank c = true)
    (hne : text ≠ []) (hfirst : ∀ c ∈ text.head?, isBlank c = false)
    (hlast : ∀ c ∈ text.getLast?, isBlank c = false) (more : List Char) :
    strip (margin ++ (text ++ more)) = text ++ dropEndWhile isBlank more := by
  obtain ⟨c, rest, rfl⟩ := List.exists_cons_of_ne_nil hne
  have hc : isBlank c = false := hfirst c rfl
  rw [strip, stripWhile, List.dropWhile_append_of_pos hmargin, List.cons_append,
    List.dropWhile_cons_of_neg (by simp [hc]), ← List.cons_append, dropEndWhile_append hlast]

/-- Behind a margin of blanks, a text without blanks is found. -/
theorem strip_append_of_free {margin text : List Char} (hmargin : ∀ c ∈ margin, isBlank c = true)
    (hne : text ≠ []) (hfree : ∀ c ∈ text, isBlank c = false) (more : List Char) :
    strip (margin ++ (text ++ more)) = text ++ dropEndWhile isBlank more :=
  strip_append hmargin hne (fun c hc => hfree c (List.mem_of_head? hc))
    (fun c hc => hfree c (List.mem_of_getLast? hc)) more

end Text

/-- A text holds no line feed. -/
def OneLine (s : String) : Prop :=
  '\n' ∉ s.toList

theorem OneLine.append {s t : String} (hs : OneLine s) (ht : OneLine t) : OneLine (s ++ t) := by
  simpa [OneLine] using And.intro hs ht

theorem lines_ne_nil (s : String) : lines s ≠ [] := by
  simp [lines, splitAt, Text.cut, Text.cutWhere_ne_nil]

theorem lines_append_newline (s t : String) : lines (s ++ "\n" ++ t) = lines s ++ lines t := by
  have hsep : (s ++ "\n" ++ t).toList = s.toList ++ '\n' :: t.toList := by
    simp
  simp only [lines, splitAt, Text.cut, hsep]
  rw [Text.cutWhere_append_sep (by rfl), List.map_append]

/-- Texts joined by line feeds have the lines of the texts. -/
theorem lines_intercalate {parts : List String} (h : parts ≠ []) :
    lines (String.intercalate "\n" parts) = parts.flatMap lines := by
  induction parts with
  | nil => exact absurd rfl h
  | cons part rest ih =>
    by_cases hr : rest = []
    · simp [hr]
    · rw [String.intercalate_cons_of_ne_nil hr, lines_append_newline, ih hr, List.flatMap_cons]

/-- Behind the first of some lines there is a line feed in front of each. -/
theorem toList_intercalate_lines (first : String) (rest : List String) :
    (String.intercalate "\n" (first :: rest)).toList =
      first.toList ++ rest.flatMap (fun line => '\n' :: line.toList) := by
  induction rest generalizing first with
  | nil => simp
  | cons next rest ih =>
    rw [String.intercalate_cons_of_ne_nil (by simp), String.toList_append, String.toList_append, ih]
    simp

/-- A front on one line is part of the first line. -/
theorem lines_append_of_free {front s line : String} {rest : List String} (hf : OneLine front)
    (h : lines s = line :: rest) : lines (front ++ s) = (front ++ line) :: rest := by
  obtain ⟨piece, pieces, hp⟩ :=
    List.exists_cons_of_ne_nil (Text.cutWhere_ne_nil (· == '\n') s.toList)
  have hfree : ∀ a ∈ front.toList, (a == '\n') = false := by
    intro a ha
    have : a ≠ '\n' := fun e => hf (e ▸ ha)
    simpa using this
  simp only [lines, splitAt, Text.cut] at h ⊢
  rw [hp, List.map_cons] at h
  obtain ⟨rfl, rfl⟩ := List.cons.inj h
  rw [String.toList_append, Text.cutWhere_append_of_free hfree hp, List.map_cons,
    String.ofList_append, String.ofList_toList]

theorem lines_of_oneLine {s : String} (h : OneLine s) : lines s = [s] := by
  have hnil : lines "" = [""] := rfl
  simpa using lines_append_of_free h hnil

/-- A line of a text holds no line feed. -/
theorem oneLine_of_mem_lines {s line : String} (h : line ∈ lines s) : OneLine line := by
  simp only [lines, splitAt, List.mem_map] at h
  obtain ⟨piece, hp, rfl⟩ := h
  intro hn
  have := Text.cutWhere_free hp '\n' (by simpa using hn)
  simp at this

end FlowScript
