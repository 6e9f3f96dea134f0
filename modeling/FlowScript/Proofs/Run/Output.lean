import FlowScript.Proofs.Source.Headers
import FlowScript.Proofs.Text.Base64
import FlowScript.Run.Output

/-!
# Reading output back

A script prints texts and figures, each on a line of its own, and the lines are told from each other
again: a text by what it is, a figure by the bytes of its image. Lines that hold nothing make no
difference wherever they stand. A figure that cannot be read is kept as a text, and each such line has
its warning.

## Main definitions

- `PrintedItem`, `PrintedLine` — what a script prints on one line, and how the line ends
- `Output.IsIdle` — a line that holds nothing
- `Output.isSpoilt` — a figure line that cannot be read

## Main results

- `Output.longestLine_lt_iff` — a text is within a limit if all its lines are
- `Output.printedLines_append` — the lines of two texts behind each other
- `Output.foldl_addLine_items` — what the lines of items add to an output
- `Output.foldl_addLine_spoilt` — what all other lines are kept as
- `output_read_back` — items come back, idle lines do not matter, and warnings are counted
-/

namespace FlowScript

open Text

/-! ## Printed items -/

/-- What a script prints on a line of its own. -/
inductive PrintedItem where
  | text (line : String)
  | figure (image : List UInt8)

namespace PrintedItem

/-- The line that an item is printed as. -/
def line : PrintedItem → List Char
  | text line => line.toList
  | figure image => Script.figureMark.toList ++ Base64.encode image

/-- A text that is one line, is not blank, does not end like a line break and is not marked as a
figure; or an image that holds bytes. -/
def Proper : PrintedItem → Prop
  | text line => '\n' ∉ line.toList ∧ allBlank line.toList = false ∧
      line.toList.getLast? ≠ some '\r' ∧ startsWith Script.figureMark.toList line.toList = false
  | figure image => image ≠ []

instance : (item : PrintedItem) → Decidable item.Proper
  | text line => inferInstanceAs (Decidable ('\n' ∉ line.toList ∧ _ ∧ _ ∧ _))
  | figure image => inferInstanceAs (Decidable (image ≠ []))

/-- The texts among printed items. -/
def texts : List PrintedItem → List String
  | [] => []
  | text line :: rest => line :: texts rest
  | figure _ :: rest => texts rest

/-- The images of the figures among printed items. -/
def images : List PrintedItem → List (List UInt8)
  | [] => []
  | text _ :: rest => images rest
  | figure image :: rest => image :: images rest

end PrintedItem

/-- An item and the line break behind it. -/
structure PrintedLine where
  item : PrintedItem
  /-- A carriage return stands before the line feed. -/
  returns : Bool

namespace PrintedLine

/-- The characters before the line feed. -/
def chars (p : PrintedLine) : List Char :=
  p.item.line ++ if p.returns then ['\r'] else []

/-- The text of printed lines. -/
def textOf (printed : List PrintedLine) : String :=
  String.ofList (printed.flatMap (fun p => p.chars ++ ['\n']))

end PrintedLine

/-- Figures of images, numbered from `first`. -/
def Figure.ofImages (first : Nat) (images : List (List UInt8)) : List Figure :=
  (images.zipIdx first).map (fun p =>
    ⟨p.2, p.1, "data:image/png;base64," ++ String.ofList (Base64.encode p.1)⟩)

namespace Output

/-! ## Sizes of lines -/

/-- The size of a line in bytes. -/
def lineSize (line : List Char) : Nat :=
  line.foldr (fun c size => c.utf8Size + size) 0

/-- The size of the current line and of the longest line before it, after one more character. -/
def measure (sizes : Nat × Nat) (c : Char) : Nat × Nat :=
  if c == '\n' then (0, max sizes.1 sizes.2) else (sizes.1 + c.utf8Size, sizes.2)

theorem foldl_measure_lt_iff {n : Nat} {cs piece : List Char} {rest : List (List Char)}
    (hcut : cut '\n' cs = piece :: rest) (current longest : Nat) :
    max (cs.foldl measure (current, longest)).1 (cs.foldl measure (current, longest)).2 < n ↔
      longest < n ∧ current + lineSize piece < n ∧ ∀ line ∈ rest, lineSize line < n := by
  induction cs generalizing current longest piece rest with
  | nil =>
    obtain ⟨rfl, rfl⟩ := List.cons.inj hcut
    rw [List.foldl_nil, Nat.max_lt]
    simp [lineSize, and_comm]
  | cons c cs ih =>
    obtain ⟨next, more, hnext⟩ := List.exists_cons_of_ne_nil (cutWhere_ne_nil (· == '\n') cs)
    by_cases hc : c = '\n'
    · subst hc
      rw [cut, cutWhere_cons_sep (by rfl), hnext] at hcut
      obtain ⟨rfl, rfl⟩ := List.cons.inj hcut
      have hstep : measure (current, longest) '\n' = (0, max current longest) := rfl
      rw [List.foldl_cons, hstep, ih hnext, Nat.max_lt]
      simp [lineSize, and_left_comm, and_assoc]
    · rw [cut, cutWhere_cons_of_not (by simpa using hc) hnext] at hcut
      obtain ⟨rfl, rfl⟩ := List.cons.inj hcut
      have hstep : measure (current, longest) c = (current + c.utf8Size, longest) := by
        simp [measure, hc]
      rw [List.foldl_cons, hstep, ih hnext]
      simp [lineSize, Nat.add_assoc]

/-- A text is within a limit if all its lines are. -/
theorem longestLine_lt_iff {n : Nat} {text : String} :
    longestLine text < n ↔ ∀ line ∈ cut '\n' text.toList, lineSize line < n := by
  obtain ⟨piece, rest, hcut⟩ := List.exists_cons_of_ne_nil (cutWhere_ne_nil (· == '\n') text.toList)
  have hmeasure : longestLine text = max (text.toList.foldl measure (0, 0)).1
      (text.toList.foldl measure (0, 0)).2 := rfl
  rw [hmeasure, foldl_measure_lt_iff hcut, cut, hcut, List.forall_mem_cons, Nat.zero_add]
  exact and_iff_right_of_imp (fun h => Nat.zero_lt_of_lt h.1)

/-! ## Lines -/

/-- The line before a line feed, without up to two carriage returns at its end. -/
def lineOf (piece : List Char) : List Char :=
  dropBack ['\r'] (dropBack ['\r'] piece)

theorem dropBack_concat (c : Char) (cs : List Char) : dropBack [c] (cs ++ [c]) = cs := by
  simp [dropBack, dropFront?]

theorem dropBack_of_getLast? {c : Char} {cs : List Char} (h : cs.getLast? ≠ some c) :
    dropBack [c] cs = cs := by
  rcases List.eq_nil_or_concat cs with rfl | ⟨front, last, rfl⟩
  · rfl
  · have hne : c ≠ last := by
      rintro rfl
      simp at h
    simp [dropBack, dropFront?, hne]

/-- The line break behind a line is not part of it. -/
theorem lineOf_append {line : List Char} (h : line.getLast? ≠ some '\r') (returns : Bool) :
    lineOf (line ++ if returns then ['\r'] else []) = line := by
  have hkeep := dropBack_of_getLast? h
  cases returns with
  | false => rw [if_neg Bool.false_ne_true, List.append_nil, lineOf, hkeep, hkeep]
  | true => rw [if_pos rfl, lineOf, dropBack_concat, hkeep]

/-- The lines of two texts behind each other. -/
theorem printedLines_append (front back : List Char) :
    printedLines (front ++ '\n' :: back) = (cut '\n' front).map lineOf ++ printedLines back := by
  have hne : cut '\n' back ≠ [] := cutWhere_ne_nil _ back
  unfold printedLines
  rw [cut_append_sep]
  dsimp only
  rw [List.getLast?_append_of_ne_nil _ hne, List.dropLast_append_of_ne_nil hne]
  split
  · rw [List.map_append]
    rfl
  · rw [List.map_append]
    rfl

theorem printedLines_cons {piece : List Char} (h : '\n' ∉ piece) (back : List Char) :
    printedLines (piece ++ '\n' :: back) = lineOf piece :: printedLines back := by
  rw [printedLines_append, cut_of_free h]
  rfl

/-! ## Items -/

variable {o : Output} {line : List Char} {item : PrintedItem}

theorem newline_not_mem_line (h : item.Proper) : '\n' ∉ item.line := by
  cases item with
  | text line => exact h.1
  | figure image =>
    rw [PrintedItem.line, List.mem_append, not_or]
    refine ⟨by decide, fun hmem => ?_⟩
    have hblank := Base64.isBlank_of_mem_encode image '\n' hmem
    cases hblank

theorem getLast?_line (h : item.Proper) : item.line.getLast? ≠ some '\r' := by
  cases item with
  | text line => exact h.2.2.1
  | figure image =>
    intro hlast
    rw [PrintedItem.line, List.getLast?_append_of_ne_nil _ (Base64.encode_ne_nil h)] at hlast
    have hblank := Base64.isBlank_of_mem_encode image '\r' (List.mem_of_getLast? hlast)
    cases hblank

theorem newline_not_mem_chars {p : PrintedLine} (h : p.item.Proper) : '\n' ∉ p.chars := by
  rw [PrintedLine.chars, List.mem_append, not_or]
  refine ⟨newline_not_mem_line h, ?_⟩
  split <;> decide

theorem cut_textOf {printed : List PrintedLine} (h : ∀ p ∈ printed, p.item.Proper) :
    cut '\n' (PrintedLine.textOf printed).toList = printed.map PrintedLine.chars ++ [[]] := by
  rw [PrintedLine.textOf, String.toList_ofList]
  induction printed with
  | nil => rfl
  | cons p rest ih =>
    obtain ⟨hp, hrest⟩ := List.forall_mem_cons.mp h
    rw [List.flatMap_cons, List.append_assoc, List.singleton_append, cut_append_sep,
      cut_of_free (newline_not_mem_chars hp), ih hrest, List.map_cons, List.singleton_append,
      List.cons_append]

/-- The lines of a printed text are those of its items. -/
theorem printedLines_textOf {printed : List PrintedLine} (h : ∀ p ∈ printed, p.item.Proper) :
    printedLines (PrintedLine.textOf printed).toList = printed.map (fun p => p.item.line) := by
  have hlines : printed.map (lineOf ∘ PrintedLine.chars) = printed.map (fun p => p.item.line) :=
    List.map_congr_left (fun p hp => lineOf_append (getLast?_line (h p hp)) p.returns)
  unfold printedLines
  rw [cut_textOf h]
  simpa [lineOf, Function.comp_def] using hlines

theorem addLine_text {text : String} (h : (PrintedItem.text text).Proper) :
    o.addLine text.toList = { o with lines := text :: o.lines } := by
  obtain ⟨-, hblank, -, hmark⟩ := h
  have hnone : dropFront? Script.figureMark.toList text.toList = none := by
    simpa [startsWith] using hmark
  simp [addLine, hnone, hblank]

theorem strip_encode {image : List UInt8} (h : image ≠ []) :
    strip (Base64.encode image) = Base64.encode image := by
  have hstrip := strip_append_of_free (List.forall_mem_nil _) (Base64.encode_ne_nil h)
    (Base64.isBlank_of_mem_encode image) []
  simpa [dropEndWhile] using hstrip

theorem dropFront?_mark (payload : List Char) :
    dropFront? Script.figureMark.toList (Script.figureMark.toList ++ payload) = some payload :=
  Source.dropFront?_eq_some_iff.mpr rfl

theorem addLine_figure {image : List UInt8} (h : image ≠ []) :
    o.addLine (PrintedItem.figure image).line =
      { o with figures := Figure.ofImages (o.figures.length + 1) [image] ++ o.figures } := by
  have hne : (Base64.encode image).isEmpty = false := by simpa using Base64.encode_ne_nil h
  rw [PrintedItem.line, addLine, dropFront?_mark]
  simp [strip_encode h, hne, Base64.decode_encode, Figure.ofImages]

/-- What the lines of items add to an output, which holds its parts in reverse. -/
theorem foldl_addLine_items {items : List PrintedItem} (h : ∀ item ∈ items, item.Proper)
    (o : Output) :
    (items.map PrintedItem.line).foldl addLine o =
      { lines := (PrintedItem.texts items).reverse ++ o.lines
        figures := (Figure.ofImages (o.figures.length + 1) (PrintedItem.images items)).reverse
          ++ o.figures
        warnings := o.warnings } := by
  induction items generalizing o with
  | nil => rfl
  | cons item rest ih =>
    obtain ⟨hitem, hrest⟩ := List.forall_mem_cons.mp h
    rw [List.map_cons, List.foldl_cons]
    cases item with
    | text line =>
      rw [PrintedItem.line, addLine_text hitem, ih hrest]
      simp [PrintedItem.texts, PrintedItem.images]
    | figure image =>
      rw [addLine_figure hitem, ih hrest]
      simp [PrintedItem.texts, PrintedItem.images, Figure.ofImages]

/-! ## Idle lines -/

/-- A blank line, or a figure line without bytes. -/
def IsIdle (line : List Char) : Prop :=
  allBlank line = true ∨
    ∃ payload, line = Script.figureMark.toList ++ payload ∧ allBlank payload = true

theorem addLine_idle (h : IsIdle line) : o.addLine line = o := by
  rcases h with hblank | ⟨payload, rfl, hblank⟩
  · have hnone : dropFront? Script.figureMark.toList line = none := by
      rw [Option.eq_none_iff_forall_ne_some]
      intro rest hrest
      obtain rfl := Source.dropFront?_eq_some_iff.mp hrest
      have hfirst := List.all_eq_true.mp hblank 'M' (by simp [Script.figureMark])
      cases hfirst
    simp [addLine, hnone, hblank]
  · have hstrip : strip payload = [] := strip_eq_nil (List.all_eq_true.mp hblank)
    simp [addLine, dropFront?_mark, hstrip]

/-- An idle line stays one without a carriage return at its end. -/
theorem IsIdle.dropBack (h : IsIdle line) : IsIdle (dropBack ['\r'] line) := by
  by_cases hlast : line.getLast? = some '\r'
  · obtain ⟨front, rfl⟩ : ∃ front, line = front ++ ['\r'] :=
      ⟨_, (List.dropLast_append_getLast? _ hlast).symm⟩
    rw [dropBack_concat]
    rcases h with hblank | ⟨payload, heq, hblank⟩
    · rw [allBlank, List.all_append, Bool.and_eq_true] at hblank
      exact .inl hblank.1
    · rcases List.eq_nil_or_concat payload with rfl | ⟨rest, last, rfl⟩
      · rw [List.append_nil] at heq
        have hmark := congrArg List.getLast? heq
        rw [List.getLast?_concat] at hmark
        cases hmark
      · rw [List.concat_eq_append, ← List.append_assoc] at heq
        rw [List.concat_eq_append, allBlank, List.all_append, Bool.and_eq_true] at hblank
        exact .inr ⟨rest, List.append_inj_left' heq rfl, hblank.1⟩
  · rwa [dropBack_of_getLast? hlast]

theorem IsIdle.lineOf (h : IsIdle line) : IsIdle (lineOf line) :=
  h.dropBack.dropBack

/-- Behind complete lines, a text has its own lines. -/
theorem exists_lines_behind {before : String} (h : before = "" ∨ ∃ s, before = s ++ "\n") :
    ∃ front : List (List Char), ∀ back : String,
      cut '\n' (before ++ back).toList = front ++ cut '\n' back.toList ∧
      printedLines (before ++ back).toList = front.map lineOf ++ printedLines back.toList := by
  rcases h with rfl | ⟨s, rfl⟩
  · exact ⟨[], fun back => by simp⟩
  · refine ⟨cut '\n' s.toList, fun back => ?_⟩
    have htext : (s ++ "\n" ++ back).toList = s.toList ++ '\n' :: back.toList := by simp
    rw [htext]
    exact ⟨cut_append_sep _ _ _, printedLines_append _ _⟩

/-- An idle line makes no difference to the text around it. -/
theorem ofText?_idle {before idle after : String} (hbefore : before = "" ∨ ∃ s, before = s ++ "\n")
    (hidle : IsIdle idle.toList) (hline : '\n' ∉ idle.toList)
    (hsize : lineSize idle.toList < lineLimit) :
    ofText? (before ++ (idle ++ "\n" ++ after)) = ofText? (before ++ after) := by
  obtain ⟨front, hfront⟩ := exists_lines_behind hbefore
  have hback : (idle ++ "\n" ++ after).toList = idle.toList ++ '\n' :: after.toList := by simp
  have hcut : cut '\n' (idle ++ "\n" ++ after).toList = idle.toList :: cut '\n' after.toList := by
    rw [hback, cut_append_sep, cut_of_free hline, List.singleton_append]
  have hlines : printedLines (idle ++ "\n" ++ after).toList =
      lineOf idle.toList :: printedLines after.toList := by
    rw [hback, printedLines_cons hline]
  have hlimit : lineLimit ≤ longestLine (before ++ (idle ++ "\n" ++ after)) ↔
      lineLimit ≤ longestLine (before ++ after) := by
    rw [← Nat.not_lt, ← Nat.not_lt, longestLine_lt_iff, longestLine_lt_iff, (hfront _).1,
      (hfront _).1, hcut, List.forall_mem_append, List.forall_mem_append, List.forall_mem_cons,
      and_iff_right hsize]
  have hfold : (printedLines (before ++ (idle ++ "\n" ++ after)).toList).foldl addLine {} =
      (printedLines (before ++ after).toList).foldl addLine {} := by
    rw [(hfront _).2, (hfront _).2, hlines, List.foldl_append, List.foldl_append, List.foldl_cons,
      addLine_idle hidle.lineOf]
  unfold ofText?
  simp only [hlimit, hfold]

/-! ## Figures that cannot be read -/

/-- A line that is marked as a figure. -/
def isFigureLine (line : List Char) : Bool :=
  startsWith Script.figureMark.toList line

/-- A figure line whose bytes are there and cannot be read. -/
def isSpoilt (line : List Char) : Bool :=
  (dropFront? Script.figureMark.toList line).any (fun rest =>
    !(strip rest).isEmpty && (Base64.decode (strip rest)).toOption.isNone)

/-- The figure lines that an output holds as texts, in reverse. -/
def keptFigureLines (o : Output) : List String :=
  o.lines.filter (fun line => isFigureLine line.toList)

/-- A line is kept as a figure line with a warning if it is spoilt. -/
theorem addLine_spoilt (o : Output) (line : List Char) :
    (o.addLine line).keptFigureLines =
        (if isSpoilt line then [String.ofList line] else []) ++ o.keptFigureLines ∧
      (o.addLine line).warnings.length = (if isSpoilt line then 1 else 0) + o.warnings.length := by
  unfold addLine isSpoilt
  cases hfront : dropFront? Script.figureMark.toList line with
  | none =>
    have hline : isFigureLine line = false := by rw [isFigureLine, startsWith, hfront]; rfl
    by_cases hblank : allBlank line
    · simp [hblank]
    · simp [hblank, keptFigureLines, hline]
  | some rest =>
    have hline : isFigureLine line = true := by rw [isFigureLine, startsWith, hfront]; rfl
    by_cases hempty : (strip rest).isEmpty
    · simp [hempty]
    · cases hdecode : Base64.decode (strip rest) with
      | error offset => simp [hempty, hdecode, keptFigureLines, hline, Nat.add_comm, Except.toOption]
      | ok image => simp [hempty, hdecode, keptFigureLines, Except.toOption]

theorem foldl_addLine_spoilt (lines : List (List Char)) (o : Output) :
    (lines.foldl addLine o).keptFigureLines =
        ((lines.filter isSpoilt).map String.ofList).reverse ++ o.keptFigureLines ∧
      (lines.foldl addLine o).warnings.length =
        (lines.filter isSpoilt).length + o.warnings.length := by
  induction lines generalizing o with
  | nil => simp
  | cons line rest ih =>
    obtain ⟨hkept, hwarnings⟩ := addLine_spoilt o line
    rw [List.foldl_cons, (ih _).1, (ih _).2, hkept, hwarnings]
    cases hline : isSpoilt line with
    | false => simp [hline]
    | true => simp [hline, Nat.add_assoc]

/-- The figure lines that are kept as texts are the spoilt ones, each with a warning. -/
theorem keptFigureLines_ofText? {text : String} {o : Output} (h : ofText? text = some o) :
    o.keptFigureLines = ((printedLines text.toList).filter isSpoilt).map String.ofList ∧
      o.warnings.length = o.keptFigureLines.length := by
  unfold ofText? at h
  split at h
  · cases h
  · obtain rfl := Option.some.inj h
    obtain ⟨hkept, hwarnings⟩ := foldl_addLine_spoilt (printedLines text.toList) {}
    have hreverse : ∀ o : Output, keptFigureLines ⟨o.lines.reverse, o.figures.reverse,
        o.warnings.reverse⟩ = o.keptFigureLines.reverse := fun o => List.filter_reverse ..
    have hnone : keptFigureLines {} = [] := rfl
    rw [hnone, List.append_nil] at hkept
    rw [hreverse, hkept, List.reverse_reverse]
    refine ⟨rfl, ?_⟩
    simpa using hwarnings

end Output

/-- The output of a script is read back. Texts and figures that are printed on lines of their own,
with either line break, come back verbatim and in order, the figures numbered from one, and nothing
is warned of; the carriage return of a line break counts for the limit of a line. An idle line makes
no difference wherever it stands. The figure lines that are kept as texts are those that cannot be
read, each with one warning, also while a text is being read. -/
theorem output_read_back :
    (∀ printed : List PrintedLine,
      (∀ p ∈ printed, p.item.Proper ∧ Output.lineSize p.chars < Output.lineLimit) →
      Output.ofText? (PrintedLine.textOf printed) = some
        { lines := PrintedItem.texts (printed.map (·.item))
          figures := Figure.ofImages 1 (PrintedItem.images (printed.map (·.item)))
          warnings := [] }) ∧
    (∀ before idle after : String, (before = "" ∨ ∃ s, before = s ++ "\n") →
      Output.IsIdle idle.toList → '\n' ∉ idle.toList →
      Output.lineSize idle.toList < Output.lineLimit →
      Output.ofText? (before ++ (idle ++ "\n" ++ after)) = Output.ofText? (before ++ after)) ∧
    (∀ (text : String) (o : Output), Output.ofText? text = some o →
      o.keptFigureLines =
        ((Output.printedLines text.toList).filter Output.isSpoilt).map String.ofList ∧
      o.warnings.length = o.keptFigureLines.length) ∧
    ∀ lines : List (List Char), (lines.foldl Output.addLine {}).warnings.length =
      (lines.foldl Output.addLine {}).keptFigureLines.length := by
  refine ⟨?_, fun _ _ _ => Output.ofText?_idle, fun _ _ => Output.keptFigureLines_ofText?, ?_⟩
  · intro printed h
    have hproper : ∀ p ∈ printed, p.item.Proper := fun p hp => (h p hp).1
    have hlimit : ¬ Output.lineLimit ≤ Output.longestLine (PrintedLine.textOf printed) := by
      rw [Nat.not_le, Output.longestLine_lt_iff, Output.cut_textOf hproper, List.forall_mem_append,
        List.forall_mem_map, List.forall_mem_singleton]
      exact ⟨fun p hp => (h p hp).2, by decide⟩
    have hitems : ∀ item ∈ printed.map (·.item), item.Proper := List.forall_mem_map.mpr hproper
    have hfold := Output.foldl_addLine_items hitems {}
    rw [List.map_map] at hfold
    rw [Output.ofText?, if_neg hlimit, Output.printedLines_textOf hproper]
    simp only [Function.comp_def] at hfold
    simp [hfold]
  · intro lines
    obtain ⟨hkept, hwarnings⟩ := Output.foldl_addLine_spoilt lines {}
    rw [hkept, hwarnings]
    simp [Output.keptFigureLines]

/-- A text with blanks around it, an image, a text that holds the mark, and another image. -/
def mixedOutput : List PrintedLine :=
  [⟨.text "  Result: 42 ", true⟩, ⟨.figure [137, 80], false⟩,
    ⟨.text "see MATPLOTLIB_FIGURE_BASE64:QQ==", false⟩, ⟨.figure [78, 71, 13, 10], true⟩]

/-- The images are numbered in their order, and a mark inside of a line makes no image. -/
theorem mixedOutput_read_back :
    (∀ p ∈ mixedOutput, p.item.Proper ∧ Output.lineSize p.chars < Output.lineLimit) ∧
    Output.ofText? (PrintedLine.textOf mixedOutput) = some
      { lines := ["  Result: 42 ", "see MATPLOTLIB_FIGURE_BASE64:QQ=="]
        figures := [⟨1, [137, 80], "data:image/png;base64,iVA="⟩,
          ⟨2, [78, 71, 13, 10], "data:image/png;base64,TkcNCg=="⟩] } := by
  have h : ∀ p ∈ mixedOutput, p.item.Proper ∧ Output.lineSize p.chars < Output.lineLimit := by
    decide +kernel
  exact ⟨h, output_read_back.1 mixedOutput h⟩

end FlowScript
