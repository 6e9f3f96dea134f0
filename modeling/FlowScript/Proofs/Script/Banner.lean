import FlowScript.Proofs.Script.Header

/-!
# The banner of a failed compilation

A compilation that fails gives a script of comments that shows the reason. The title is put on one
line, and each line of the message behind a hash sign. Only line feeds are taken for line ends there,
but a line of a source ends at a carriage return as well. So the banner runs nothing exactly when
whatever stands behind a carriage return in the message is a comment of its own.

## Main definitions

- `Inert` — every line of a script is empty or a comment
- `strays` — what stands behind the carriage returns of a message

## Main results

- `allIdle_line` — a text that a line feed ends falls into lines at its carriage returns
- `inert_errorBanner_iff` — when the banner of a message runs nothing
- `failure_inert_iff` — when the script of a failed compilation runs nothing
-/

namespace FlowScript

open Text

/-- A line that runs nothing: it is empty, or it is a comment from its first character on. -/
def IdleLine (line : List Char) : Prop :=
  ∀ c ∈ line.head?, c = '#'

/-- A script that runs nothing. -/
def Inert (script : String) : Prop :=
  ∀ line ∈ sourceLines script, IdleLine line.toList

/-- The source lines of a text run nothing. -/
def AllIdle (cs : List Char) : Prop :=
  ∀ line ∈ cutWhere isLineEnd (unixLines cs), IdleLine line

theorem idleLine_nil : IdleLine [] := by
  intro c hc
  cases hc

theorem inert_iff {script : String} : Inert script ↔ AllIdle script.toList := by
  simp [Inert, AllIdle, sourceLines]

theorem allIdle_nil : AllIdle [] := by
  intro line hline
  rw [unixLines, cutWhere_nil, List.mem_singleton] at hline
  exact hline ▸ idleLine_nil

/-! ## Lines that a line feed ends -/

theorem cutWhere_congr {p q : Char → Bool} {cs : List Char} (h : ∀ c ∈ cs, p c = q c) :
    cutWhere p cs = cutWhere q cs := by
  induction cs with
  | nil => rfl
  | cons c cs ih =>
    have ih := ih (fun d hd => h d (List.mem_cons_of_mem c hd))
    unfold cutWhere at ih ⊢
    rw [List.foldr_cons, List.foldr_cons, ih, h c List.mem_cons_self]

/-- Without line feeds only carriage returns end lines. -/
theorem cutWhere_isLineEnd {cs : List Char} (h : '\n' ∉ cs) :
    cutWhere isLineEnd cs = cut '\r' cs := by
  refine cutWhere_congr fun c hc => ?_
  have hne : c ≠ '\n' := ne_of_mem_of_not_mem hc h
  simp [isLineEnd, hne]

/-- A front without line feeds is kept, unless its last character and what follows are one line
end. -/
theorem unixLines_append {front rest : List Char} (h : '\n' ∉ front)
    (hrest : rest.head? ≠ some '\n') : unixLines (front ++ rest) = front ++ unixLines rest := by
  induction front with
  | nil => rfl
  | cons c front ih =>
    have htail : '\n' ∉ front := fun hn => h (List.mem_cons_of_mem c hn)
    have hhead : (front ++ rest).head? ≠ some '\n' := by
      cases front with
      | nil => exact hrest
      | cons d front =>
        have hd : d ≠ '\n' := fun hd => htail (hd ▸ List.mem_cons_self)
        simpa using hd
    rw [List.cons_append, List.cons_append, ← ih htail]
    cases hcs : front ++ rest with
    | nil => rfl
    | cons d cs =>
      have hd : d ≠ '\n' := by simpa [hcs] using hhead
      simp [unixLines, hd]

/-- A text that a line feed ends falls into lines at its carriage returns. If the last of them stands
in front of the line feed, both are one line end, and an empty piece is no line. -/
theorem allIdle_line {text : List Char} (h : '\n' ∉ text) (rest : List Char) :
    AllIdle (text ++ '\n' :: rest) ↔ (∀ piece ∈ cut '\r' text, IdleLine piece) ∧ AllIdle rest := by
  have hlines : ∀ {front : List Char}, '\n' ∉ front →
      cutWhere isLineEnd (front ++ '\n' :: unixLines rest) =
        cut '\r' front ++ cutWhere isLineEnd (unixLines rest) := by
    intro front hfront
    rw [cutWhere_append_sep (by rfl), cutWhere_isLineEnd hfront]
  have hfeed : unixLines ('\n' :: rest) = '\n' :: unixLines rest :=
    Source.unixLines_cons_of_ne (by decide) rest
  unfold AllIdle
  rcases List.eq_nil_or_concat' text with rfl | ⟨front, last, rfl⟩
  · rw [List.nil_append, hfeed, ← List.nil_append ('\n' :: unixLines rest), hlines List.not_mem_nil,
      List.forall_mem_append]
  · obtain ⟨hfront, hlast⟩ : '\n' ∉ front ∧ '\n' ≠ last := by simpa using h
    rw [List.append_assoc, List.singleton_append,
      unixLines_append hfront (by simpa using hlast.symm)]
    by_cases hreturn : last = '\r'
    · have hpair : unixLines (last :: '\n' :: rest) = '\n' :: unixLines rest := by
        simp [unixLines, hreturn]
      have hempty : ∀ piece ∈ cut '\r' ([] : List Char), IdleLine piece := by
        intro piece hpiece
        exact List.mem_singleton.mp hpiece ▸ idleLine_nil
      rw [hpair, hlines hfront, List.forall_mem_append, hreturn, cut_append_sep,
        List.forall_mem_append, and_iff_left hempty]
    · rw [Source.unixLines_cons_of_ne hreturn, hfeed, ← List.singleton_append, ← List.append_assoc,
        hlines h, List.forall_mem_append]

/-! ## Blanks at the end of a line -/

theorem dropEndWhile_append_eq (p : Char → Bool) (front back : List Char) :
    dropEndWhile p (front ++ back) =
      if dropEndWhile p back = [] then dropEndWhile p front else front ++ dropEndWhile p back := by
  unfold dropEndWhile
  rw [List.reverse_append, List.dropWhile_append]
  by_cases h : back.reverse.dropWhile p = []
  · simp [h]
  · simp [h]

theorem mem_of_mem_dropEndWhile {p : Char → Bool} {cs : List Char} {c : Char}
    (h : c ∈ dropEndWhile p cs) : c ∈ cs := by
  have hmem := (List.dropWhile_sublist p).subset (List.mem_reverse.mp h)
  exact List.mem_reverse.mp hmem

/-- A front without separators is part of the first piece. -/
theorem cut_append_eq {sep : Char} {front : List Char} (h : sep ∉ front) (back : List Char) :
    ∃ piece, cut sep (front ++ back) = (front ++ piece) :: (cut sep back).tail := by
  obtain ⟨piece, rest, hcut⟩ := List.exists_cons_of_ne_nil (cutWhere_ne_nil (· == sep) back)
  refine ⟨piece, ?_⟩
  rw [cut, cut, cutWhere_append_of_free (beq_of_not_mem h) hcut, hcut, List.tail_cons]

theorem tail_cut_append {sep : Char} {front : List Char} (h : sep ∉ front) (back : List Char) :
    (cut sep (front ++ back)).tail = (cut sep back).tail := by
  obtain ⟨piece, hcut⟩ := cut_append_eq h back
  rw [hcut, List.tail_cons]

/-- A front without separators changes the first piece only, with or without blanks at the end. -/
theorem tail_cut_dropEndWhile {sep : Char} {front : List Char} (h : sep ∉ front)
    (p : Char → Bool) (back : List Char) :
    (cut sep (dropEndWhile p (front ++ back))).tail = (cut sep (dropEndWhile p back)).tail := by
  rw [dropEndWhile_append_eq]
  split
  · next hback =>
    have hfront : sep ∉ dropEndWhile p front := fun hmem => h (mem_of_mem_dropEndWhile hmem)
    rw [hback, cut_of_free hfront, cut_of_free List.not_mem_nil, List.tail_cons, List.tail_cons]
  · exact tail_cut_append h _

/-! ## The banner -/

namespace Script

/-- What stands behind the carriage returns in the lines of a message, without the spaces at the ends
of the lines. -/
def strays (message : List Char) : List (List Char) :=
  (cut '\n' message).flatMap fun line => (cut '\r' (dropEndWhile (· == ' ') line)).tail

/-- A front on one line does not change what stands behind the carriage returns. -/
theorem strays_append {front : List Char} (h : Unbroken front) (message : List Char) :
    strays (front ++ message) = strays message := by
  obtain ⟨hfeed, hreturn⟩ := unbroken_iff.mp h
  have hfree := beq_of_not_mem hfeed
  obtain ⟨line, rest, hcut⟩ := List.exists_cons_of_ne_nil (cutWhere_ne_nil (· == '\n') message)
  rw [strays, strays, cut, cut, cutWhere_append_of_free hfree hcut, hcut, List.flatMap_cons,
    List.flatMap_cons, tail_cut_dropEndWhile hreturn]

/-- How the banner shows a line of its message. -/
def bannerLine (line : List Char) : List Char :=
  dropEndWhile (· == ' ') ('#' :: ' ' :: line)

theorem toList_errorBanner (title message : String) :
    (errorBanner title (some message)).toList =
      ('#' :: ' ' :: remark title.toList) ++
        '\n' :: (cut '\n' message.toList).flatMap fun line => bannerLine line ++ ['\n'] := by
  rw [errorBanner, String.toList_ofList]
  rfl

theorem toList_errorBanner_none (title : String) :
    (errorBanner title none).toList = ('#' :: ' ' :: remark title.toList) ++ ['\n'] := by
  rw [errorBanner, String.toList_ofList]
  rfl

/-- The pieces of a text behind a hash sign run nothing if those behind its carriage returns do
not. -/
theorem forall_cut_hash_iff (cs : List Char) :
    (∀ piece ∈ cut '\r' ('#' :: cs), IdleLine piece) ↔
      ∀ piece ∈ (cut '\r' cs).tail, IdleLine piece := by
  obtain ⟨first, rest, hcut⟩ := List.exists_cons_of_ne_nil (cutWhere_ne_nil (· == '\r') cs)
  have hhash : IdleLine ('#' :: first) := by
    intro c hc
    exact (Option.some.inj hc).symm
  rw [cut, cutWhere_cons_of_not (by decide) hcut, List.forall_mem_cons, and_iff_right hhash, cut,
    hcut, List.tail_cons]

/-- A line of the message runs nothing if what stands behind its carriage returns does not. -/
theorem forall_cut_bannerLine_iff (line : List Char) :
    (∀ piece ∈ cut '\r' (bannerLine line), IdleLine piece) ↔
      ∀ piece ∈ (cut '\r' (dropEndWhile (· == ' ') line)).tail, IdleLine piece := by
  have hhash : bannerLine line = '#' :: dropEndWhile (· == ' ') ([' '] ++ line) := by
    show dropEndWhile _ (['#'] ++ ' ' :: line) = ['#'] ++ _
    exact dropEndWhile_append (by simp) (' ' :: line)
  rw [hhash, forall_cut_hash_iff, tail_cut_dropEndWhile (by decide)]

theorem newline_not_mem_bannerLine {line : List Char} (h : '\n' ∉ line) :
    '\n' ∉ bannerLine line := by
  intro hmem
  simpa [h] using mem_of_mem_dropEndWhile hmem

theorem allIdle_bannerLines_iff {shown : List (List Char)} (h : ∀ line ∈ shown, '\n' ∉ line) :
    AllIdle (shown.flatMap fun line => bannerLine line ++ ['\n']) ↔
      ∀ line ∈ shown, ∀ piece ∈ (cut '\r' (dropEndWhile (· == ' ') line)).tail, IdleLine piece := by
  induction shown with
  | nil => simpa using allIdle_nil
  | cons line rest ih =>
    obtain ⟨hline, hrest⟩ := List.forall_mem_cons.mp h
    rw [List.flatMap_cons, List.append_assoc, List.singleton_append,
      allIdle_line (newline_not_mem_bannerLine hline), forall_cut_bannerLine_iff, ih hrest,
      List.forall_mem_cons]

/-- The line of the title is one comment. -/
theorem allIdle_title_iff (title : String) (rest : List Char) :
    AllIdle (('#' :: ' ' :: remark title.toList) ++ '\n' :: rest) ↔ AllIdle rest := by
  obtain ⟨hfeed, hreturn⟩ := unbroken_iff.mp (unbroken_remark title.toList)
  have htitle : ∀ piece ∈ cut '\r' ('#' :: ' ' :: remark title.toList), IdleLine piece := by
    rw [forall_cut_hash_iff, cut_of_free (by simpa using hreturn)]
    simp
  rw [allIdle_line (by simpa using hfeed), and_iff_right htitle]

theorem inert_errorBanner_none (title : String) : Inert (errorBanner title none) := by
  rw [inert_iff, toList_errorBanner_none, allIdle_title_iff]
  exact allIdle_nil

/-- A banner runs nothing exactly when what stands behind the carriage returns of its message does
not. -/
theorem inert_errorBanner_iff (title message : String) :
    Inert (errorBanner title (some message)) ↔
      ∀ piece ∈ strays message.toList, IdleLine piece := by
  have hfree : ∀ line ∈ cut '\n' message.toList, '\n' ∉ line := by
    intro line hline hmem
    simpa using cutWhere_free hline '\n' hmem
  rw [inert_iff, toList_errorBanner, allIdle_title_iff, allIdle_bannerLines_iff hfree, strays]
  simp only [List.mem_flatMap]
  constructor
  · rintro h piece ⟨line, hline, hpiece⟩
    exact h line hline piece hpiece
  · intro h line hline piece hpiece
    exact h piece ⟨line, hline, hpiece⟩

end Script

open Script

/-- What a failed compilation gives runs nothing exactly when the reason has nothing but comments
behind its carriage returns. The same holds of the banner of any message under any title; without a
message it never runs anything. -/
theorem failure_inert_iff (f : Flow) (reason : String) :
    (Inert (f.compile (.error reason)).1.script ↔
      ∀ piece ∈ strays reason.toList, IdleLine piece) ∧
    ∀ title, Inert (errorBanner title none) ∧
      ∀ message, Inert (errorBanner title (some message)) ↔
        ∀ piece ∈ strays message.toList, IdleLine piece := by
  have hfront : Unbroken "internal compiler error: ".toList := by decide +kernel
  have hreason : strays (InternalError.message ⟨reason⟩).toList = strays reason.toList := by
    delta InternalError.message
    rw [String.toList_append, strays_append hfront]
  refine ⟨?_, fun title => ⟨inert_errorBanner_none title, inert_errorBanner_iff title⟩⟩
  show Inert (errorBanner "Error compiling flow" (some (InternalError.message ⟨reason⟩))) ↔ _
  rw [inert_errorBanner_iff, hreason]

/-- A carriage return in the reason starts a line of the script. -/
theorem returned_reason_runs :
    "print(1)" ∈ sourceLines (Flow.compile {} (.error "boom\rprint(1)")).1.script ∧
    ¬ ∀ title message : String, Inert (errorBanner title (some message)) := by
  refine ⟨by decide +kernel, ?_⟩
  intro h
  have hline := (inert_errorBanner_iff "" "\rprint(1)").mp (h _ _) "print(1)".toList
    (by decide +kernel)
  exact absurd (hline 'p' rfl) (by decide)

end FlowScript
