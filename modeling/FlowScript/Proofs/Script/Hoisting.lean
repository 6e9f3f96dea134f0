import FlowScript.Script.Collect
import FlowScript.Proofs.Script.Dedent
import FlowScript.Proofs.Source.Headers
import FlowScript.Proofs.Source.LogicalLines

/-!
# Imports that are moved out of a source

The import statements of a script are lines of the function sources, told by how they start. Moving
them tears no statement apart exactly when every line that starts like an import is a logical line
of its own: nothing is open in front of it, and it leaves nothing open.

## Main definitions

- `StandAlone` — lines that start like an import are logical lines of their own

## Main results

- `logicalFrom_split` — which logical lines there are with such lines, and without them
- `standAlone_of_singles` — if such lines are logical lines, nothing is open in front of them
- `hoisting_tears_nothing_iff` — when moving the imports of a source keeps its statements whole
-/

namespace FlowScript.Script

open Text Source

variable {r : LineState} {line : List Char} {lines : List (List Char)}

/-! ## Lines that start like an import -/

/-- Nothing is open in front of a line that starts like an import, and the line leaves nothing open;
the reading of the lines starts in the given state. -/
def StandAlone (r : LineState) (lines : List (List Char)) : Prop :=
  ∀ before line after, lines = before ++ line :: after → isImport line = true →
    r.readLines before = .fresh ∧ r.readLines (before ++ [line]) = .fresh

theorem standAlone_nil (r : LineState) : StandAlone r [] := by
  intro before line after h
  simp at h

theorem standAlone_cons : StandAlone r (line :: lines) ↔
    (isImport line = true → r = .fresh ∧ r.readLine line = .fresh) ∧
      StandAlone (r.readLine line) lines := by
  constructor
  · intro h
    refine ⟨fun himport => h [] line lines rfl himport, ?_⟩
    rintro before next after rfl himport
    exact h (line :: before) next after rfl himport
  · rintro ⟨hline, hrest⟩ before next after heq himport
    cases before with
    | nil =>
      obtain ⟨rfl, -⟩ := List.cons.inj heq
      exact hline himport
    | cons first before =>
      obtain ⟨rfl, rfl⟩ := List.cons.inj heq
      exact hrest before next after rfl himport

/-- While something is open, the lines up to its end do not start like an import. -/
theorem StandAlone.head_free (h : StandAlone r lines) (hr : r ≠ .fresh) :
    ((logicalFrom r lines).head?.getD []).any isImport = false := by
  induction lines generalizing r with
  | nil => rfl
  | cons line rest ih =>
    obtain ⟨hline, hrest⟩ := standAlone_cons.mp h
    have hno : isImport line = false := by
      rw [← Bool.not_eq_true]
      exact fun himport => hr (hline himport).1
    by_cases hopen : r.readLine line = .fresh
    · rw [logicalFrom_cons_of_fresh hopen]
      simpa using hno
    · rw [logicalFrom_cons_of_open hopen]
      simp [hno, ih hrest hopen]

/-- The lines that start like an import are logical lines of their own, and the others belong
together as they do when those are taken away. -/
theorem logicalFrom_split (h : StandAlone r lines) :
    (logicalFrom r lines).filter (fun group => group.any isImport) =
        (lines.filter isImport).map (fun l => [l]) ∧
      (logicalFrom r lines).filter (fun group => !group.any isImport) =
        logicalFrom r (lines.filter (fun l => !isImport l)) := by
  induction lines generalizing r with
  | nil => exact ⟨rfl, rfl⟩
  | cons line rest ih =>
    obtain ⟨hline, hrest⟩ := standAlone_cons.mp h
    have ih := ih hrest
    cases hno : isImport line with
    | true =>
      obtain ⟨rfl, hclosed⟩ := hline hno
      rw [hclosed] at ih
      simp [logicalFrom_cons_of_fresh hclosed, hno, ih]
    | false =>
      by_cases hopen : r.readLine line = .fresh
      · rw [hopen] at ih
        simp [logicalFrom_cons_of_fresh hopen, hno, ih]
      · -- the line takes the next group along, which has no import either
        have hfree := hrest.head_free hopen
        rw [List.filter_cons_of_neg (by simp [hno]), List.filter_cons_of_pos (by simp [hno]),
          logicalFrom_cons_of_open hopen, logicalFrom_cons_of_open hopen, ← ih.1, ← ih.2]
        cases hgroups : logicalFrom (r.readLine line) rest with
        | nil => simp [hno]
        | cons group groups =>
          rw [hgroups, List.head?_cons, Option.getD_some] at hfree
          simp [hno, hfree]

/-- If each logical line with a line that starts like an import consists of that line, and these
lines are complete, then they stand alone. The first group may be the rest of a logical line, which
then has no such line. -/
theorem standAlone_of_singles
    (hcomplete : ∀ line ∈ lines, isImport line = true → LineState.fresh.readLine line = .fresh)
    (hsingle : ∀ group ∈ logicalFrom r lines, group.any isImport = true → group.length = 1)
    (hfirst : r ≠ .fresh → ((logicalFrom r lines).head?.getD []).any isImport = false) :
    StandAlone r lines := by
  induction lines generalizing r with
  | nil => exact standAlone_nil r
  | cons line rest ih =>
    have hrest := fun l hl => hcomplete l (List.mem_cons_of_mem line hl)
    have hclosed : isImport line = true → r = .fresh ∧ r.readLine line = .fresh := by
      intro himport
      have hr : r = .fresh := by
        by_contra hr
        have hfree := hfirst hr
        by_cases hopen : r.readLine line = .fresh
        · rw [logicalFrom_cons_of_fresh hopen] at hfree
          simp [himport] at hfree
        · rw [logicalFrom_cons_of_open hopen] at hfree
          simp [himport] at hfree
      exact ⟨hr, hr ▸ hcomplete line List.mem_cons_self himport⟩
    refine standAlone_cons.mpr ⟨hclosed, ?_⟩
    by_cases hopen : r.readLine line = .fresh
    · rw [logicalFrom_cons_of_fresh hopen] at hsingle
      rw [hopen]
      exact ih hrest (fun group hg => hsingle group (List.mem_cons_of_mem _ hg)) (absurd rfl)
    · rw [logicalFrom_cons_of_open hopen] at hsingle
      have hsingle' := hsingle _ List.mem_cons_self
      have hfree : ((logicalFrom (r.readLine line) rest).head?.getD []).any isImport = false := by
        rw [← Bool.not_eq_true]
        intro hany
        have hnil := hsingle' (by simp [hany])
        rw [List.length_eq_zero_iff.mp (Nat.succ.inj hnil)] at hany
        exact absurd hany (by decide)
      refine ih hrest (fun group hg hany => ?_) (fun _ => hfree)
      cases hgroups : logicalFrom (r.readLine line) rest with
      | nil =>
        rw [hgroups] at hg
        cases hg
      | cons first groups =>
        rw [hgroups] at hg hsingle hfree
        rcases List.mem_cons.mp hg with rfl | hg
        · exact absurd hany (by simpa using hfree)
        · exact hsingle group (List.mem_cons_of_mem _ hg) hany

/-! ## Lines of a definition -/

/-- A tidied line reads like the line. -/
theorem readLine_tidied (hr : r.AtStart) {indent : List Char}
    (hindent : ∀ c ∈ indent, isBlank c = true) (line : List Char) :
    r.readLine (tidied indent line) = r.readLine line := by
  unfold tidied
  split
  · next hblank =>
    have hall : ∀ c ∈ line, isBlank c = true := by simpa [allBlank] using hblank
    simpa using (LineState.readLine_append_blanks hall []).symm
  · rw [LineState.readLine_dropEndWhile (fun _ => isBlank_of_isIndent), dropFront]
    cases hfront : dropFront? indent line with
    | none => rfl
    | some rest =>
      rw [dropFront?_eq_some_iff.mp hfront]
      exact (LineState.readLine_blanks_append hr hindent rest).symm

/-- Moving the imports of a source tears no statement apart exactly when every line that starts like
an import is a logical line of its own: then the imports are complete, they are logical lines of the
source, and the others are those of what stays. What stays becomes the definition when its lines are
tidied, and they belong together as before. -/
theorem hoisting_tears_nothing_iff (code : String) :
    let lines := codeLines code
    let kept := lines.filter (fun l => !isImport l)
    let tidy := tidied (sharedIndent kept)
    (((∀ statement ∈ importsOf lines, LineState.fresh.readLine statement.toList = .fresh) ∧
        (logicalLines lines).filter (fun group => group.any isImport) =
          (lines.filter isImport).map (fun l => [l]) ∧
        logicalLines kept = (logicalLines lines).filter (fun group => !group.any isImport)) ↔
      ∀ before line after, lines = before ++ line :: after → isImport line = true →
        LineState.fresh.readLines before = .fresh ∧
          LineState.fresh.readLines (before ++ [line]) = .fresh) ∧
    bodyOf lines = glue ['\n'] (withoutBlankEnds (kept.map tidy)) ∧
    logicalLines (kept.map tidy) = (logicalLines kept).map (List.map tidy) := by
  intro lines kept tidy
  have hstrip := LineState.readLine_strip LineState.fresh_atStart
  refine ⟨⟨?_, fun h => ?_⟩, rfl, ?_⟩
  · rintro ⟨hcomplete, hsingles, -⟩
    refine standAlone_of_singles (fun line hline himport => ?_) (fun group hgroup hany => ?_)
      (absurd rfl)
    · have hmem : String.ofList (strip line) ∈ importsOf lines :=
        List.mem_map_of_mem (List.mem_filter.mpr ⟨hline, himport⟩)
      simpa [hstrip] using hcomplete _ hmem
    · have hmem : group ∈ (lines.filter isImport).map (fun l => [l]) :=
        hsingles ▸ List.mem_filter.mpr ⟨hgroup, hany⟩
      obtain ⟨line, -, rfl⟩ := List.mem_map.mp hmem
      rfl
  · refine ⟨fun statement hs => ?_, (logicalFrom_split h).1, (logicalFrom_split h).2.symm⟩
    obtain ⟨line, hline, rfl⟩ := List.mem_map.mp hs
    obtain ⟨hmem, himport⟩ := List.mem_filter.mp hline
    obtain ⟨before, after, hsplit⟩ := List.append_of_mem hmem
    obtain ⟨hbefore, hafter⟩ := h before line after hsplit himport
    rw [LineState.readLines, List.foldl_concat, ← LineState.readLines, hbefore] at hafter
    rw [String.toList_ofList, hstrip, hafter]
  · exact logicalFrom_map (fun r hr line _ =>
      readLine_tidied hr (fun _ => isBlank_of_mem_sharedIndent) line) LineState.fresh_atStart

/-- A source with an import statement on three lines. -/
def bracketedImport : String :=
  "from os import (\n    path,\n)\ndef f():\n    return path"

/-- The first line of the import is moved although it leaves a bracket open, and the two other lines
stay behind as lines of their own. -/
theorem bracketedImport_torn :
    importsOf (codeLines bracketedImport) = ["from os import ("] ∧
    LineState.fresh.readLine "from os import (".toList = ⟨1, .code⟩ ∧
    logicalLines (codeLines bracketedImport) =
      [["from os import (".toList, "    path,".toList, ")".toList], ["def f():".toList],
        ["    return path".toList]] ∧
    logicalLines ((codeLines bracketedImport).filter (fun l => !isImport l)) =
      [["    path,".toList], [")".toList], ["def f():".toList], ["    return path".toList]] ∧
    bodyOf (codeLines bracketedImport) =
      "    path,\n)\ndef f():\n    return path".toList := by
  decide +kernel

end FlowScript.Script
