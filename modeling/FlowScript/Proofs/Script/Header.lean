import FlowScript.Proofs.Script.BlockLines
import FlowScript.Proofs.Script.DocText
import FlowScript.Proofs.Time.Stamps

/-!
# User text in the header and in comments

The documentation string at the top of a script holds the name and the id of the flow and is read to
the quotes that close it. A comment with user text ends on its own line.

Nothing here depends on whether a user text holds a null character. No source may hold one, but that is
a matter of the script as a whole: the character ends no line and closes no literal, so it stays inside
like any other. Which literals keep it out of the script is told by `script_literals_denote`.

## Main results

- `readLiteral_header` — what the documentation string stands for, and what follows it
- `sourceLines_definition`, `sourceLines_block` — comments and blocks are lines of the script
- `user_text_stays_inside` — no user text gets out of the documentation string or a comment
-/

namespace FlowScript

namespace Script

theorem unbroken_remark (s : List Char) : Unbroken (remark s) := by
  simpa [remarkText] using unbroken_remarkText (String.ofList s)

/-- User text in a documentation string is read as its remark, when no quote follows. -/
theorem readLiteral_docText_append (s : List Char) {rest : List Char}
    (hrest : rest.head? ≠ some '"') :
    readLiteral .long (docText s ++ rest) =
      putFront (pieces (remark s)) (readLiteral .long rest) := by
  rw [docText_eq]
  exact readLiteral_escapeDoc_append (unbroken_remark s) hrest

/-- A line of the documentation string behind the line feed in front of it. -/
def headerLine (label : String) (value : List Char) : List Char :=
  '\n' :: (label.toList ++ value)

/-- The documentation string with name and id in the given form. -/
def headerText (form : List Char → List Char) (f : Flow) (stamp : String) : List Char :=
  headerLine "Flow: " (form f.name.toList) ++ (headerLine "Flow ID: " (form f.id.toList)
    ++ (headerLine "Generated: " stamp.toList ++ ['\n']))

/-- Three quotes, which open and close the documentation string. -/
def tripleQuote : List Char :=
  ['"', '"', '"']

theorem header_eq (f : Flow) (stamp : String) :
    (header f stamp).toList =
      tripleQuote ++ (headerText docText f stamp ++ (tripleQuote ++ ['\n', '\n'])) := by
  have hname : "\"\"\"\nFlow: ".toList = tripleQuote ++ '\n' :: "Flow: ".toList := rfl
  have hid : "\nFlow ID: ".toList = '\n' :: "Flow ID: ".toList := rfl
  have hstamp : "\n".toList = ['\n'] := rfl
  have hback : "\n\"\"\"\n\n".toList = '\n' :: (tripleQuote ++ ['\n', '\n']) := rfl
  delta header Compiled.headerStamp
  simp only [String.toList_append, String.toList_ofList, hname, hid,
    hstamp, hback, headerText, headerLine, List.append_assoc, List.cons_append, List.nil_append]

/-- The header is the only part of a script that tells the time. -/
theorem exists_script_header (f : Flow) :
    ∃ body : String, ∀ stamp, (f.compileAt stamp).script.toList = tripleQuote ++
      (headerText docText f stamp ++ (tripleQuote ++ '\n' :: '\n' :: body.toList)) := by
  obtain ⟨body, hbody⟩ : ∃ body, ∀ stamp, (f.compileAt stamp).script = header f stamp ++ body := by
    refine ⟨?_, fun stamp => ?_⟩
    rotate_left
    · show assemble f (Plan.ofFlow f) stamp = _
      delta assemble
      simp only [String.append_assoc]
      rfl
  refine ⟨body, fun stamp => ?_⟩
  rw [hbody, String.toList_append, header_eq]
  simp

theorem isPlain_of_isStampChar {c : Char} (h : Moment.isStampChar c = true) :
    isPlain .long c = true ∧ c ≠ '"' := by
  have hne : ∀ d, Moment.isStampChar d = false → c ≠ d := by
    rintro d hd rfl
    rw [h] at hd
    cases hd
  refine ⟨?_, hne '"' (by decide)⟩
  simp [isPlain, hne '\\' (by decide), hne '\n' (by decide), hne '\r' (by decide)]

/-- A stamp needs no escape. -/
theorem isPlain_of_mem_stamp {now : Moment} {c : Char} (h : c ∈ now.utc.stamp.toList) :
    isPlain .long c = true ∧ c ≠ '"' := by
  obtain ⟨front, hstamp, -, hfront⟩ := now.exists_stamp_eq
  rw [hstamp, List.mem_append, List.mem_singleton] at h
  rcases h with h | rfl
  · exact isPlain_of_isStampChar (hfront c h)
  · decide

/-- The documentation string is read to the quotes that close it. -/
theorem readLiteral_header (f : Flow) (now : Moment) (rest : List Char) :
    readLiteral .long (headerText docText f now.utc.stamp ++ (tripleQuote ++ rest)) =
      some (pieces (headerText remark f now.utc.stamp), rest) := by
  have hclosed : Quoting.closed? .long (tripleQuote ++ rest) = some rest := rfl
  have hline : ∀ {label : String},
      (label.toList.all fun c => isPlain .long c = true ∧ c ≠ '"') = true →
      ∀ value cs, readLiteral .long (headerLine label value ++ cs) =
        putFront (pieces ('\n' :: label.toList)) (readLiteral .long (value ++ cs)) := by
    intro label h value cs
    rw [headerLine, List.cons_append, List.append_assoc, readLiteral_newline,
      readLiteral_plain_append (List.all_iff_forall_prop.mp h), putFront_putFront]
    rfl
  have htext : ∀ s label value cs, readLiteral .long (docText s ++ (headerLine label value ++ cs)) =
      putFront (pieces (remark s)) (readLiteral .long (headerLine label value ++ cs)) := by
    intro s label value cs
    exact readLiteral_docText_append s (by simp [headerLine])
  rw [headerText, List.append_assoc, List.append_assoc, List.append_assoc, hline (by decide), htext,
    hline (by decide), htext, hline (by decide),
    readLiteral_plain_append (fun c => isPlain_of_mem_stamp), List.singleton_append,
    readLiteral_newline, readLiteral_closed hclosed]
  simp [headerText, headerLine, pieces]

/-! ## Comments -/

/-- Definitions and blocks stand behind line feeds in a script, with line feeds behind them. -/
theorem exists_script_eq (f : Flow) (stamp : String) :
    ∃ top middle bottom : String, (f.compileAt stamp).script =
      top ++ ("\n" ++ String.join (((Plan.ofFlow f).collected.definitions.map Definition.text).map
        (· ++ ("\n\n" ++ "\n")))) ++ middle
      ++ ("\n" ++ String.join (((Plan.ofFlow f).nodes.map (block f (Plan.ofFlow f).collected)).map
        (· ++ ("\n" ++ "\n")))) ++ bottom := by
  have hblocks : ∀ blocks : List String,
      (if blocks.isEmpty then "" else String.intercalate "\n\n" blocks ++ "\n\n") =
        String.join (blocks.map (· ++ ("\n" ++ "\n"))) := by
    intro blocks
    cases blocks with
    | nil => rfl
    | cons b rest => exact intercalate_append_sep "\n\n" (List.cons_ne_nil b rest)
  have hgap : "\n\n\n" = "\n\n" ++ "\n" := rfl
  have hstart : "print(\"Starting flow execution...\")\n\n" =
      "print(\"Starting flow execution...\")\n" ++ "\n" := by decide +kernel
  refine ⟨header f stamp ++ String.intercalate "\n" (Plan.ofFlow f).collected.imports ++ "\n\n",
    "def run_flow():\n" ++ indent ++ "\"\"\"Run every node of the flow in dependency order.\"\"\"\n"
      ++ indent ++ "print(\"Starting flow execution...\")\n",
    indent ++ "print(\"Flow execution finished.\")\n"
      ++ "\n\nif __name__ == \"__main__\":\n" ++ indent ++ "run_flow()\n", ?_⟩
  show assemble f (Plan.ofFlow f) stamp = _
  delta assemble driver
  rw [hblocks, hstart]
  simp only [hgap, String.append_assoc, List.map_map, Function.comp_def]

/-- The lines of a block are lines of the script. -/
theorem sourceLines_block {f : Flow} {p : Placed} (hp : p ∈ (Plan.ofFlow f).nodes) (stamp : String) :
    (blockLines f (Plan.ofFlow f).collected p).map (indent ++ ·) <:+:
      sourceLines (f.compileAt stamp).script := by
  have hlines : ∀ line ∈ (blockLines f (Plan.ofFlow f).collected p).map (indent ++ ·),
      Unbroken line.toList := by
    intro line hline
    obtain ⟨inner, hinner, rfl⟩ := List.mem_map.mp hline
    exact unbroken_concat.mpr ⟨by decide, (unbroken_of_mem_blockLines hp inner hinner).1⟩
  have hne : (blockLines f (Plan.ofFlow f).collected p).map (indent ++ ·) ≠ [] := by
    simp [blockLines]
  obtain ⟨top, middle, bottom, hscript⟩ := exists_script_eq f stamp
  obtain ⟨s, t, hjoin⟩ := exists_join_eq
    (List.mem_map_of_mem (f := block f (Plan.ofFlow f).collected) hp) "\n"
  have hbetween := sourceLines_between hlines (top ++ ("\n" ++ String.join
    (((Plan.ofFlow f).collected.definitions.map Definition.text).map (· ++ ("\n\n" ++ "\n"))))
    ++ middle ++ s) ("\n" ++ t ++ bottom)
  rw [← intercalate_append_sep "\n" hne, ← block_eq hp] at hbetween
  rw [hscript, hjoin]
  simpa only [String.append_assoc] using hbetween

/-- The comments around a definition are lines of the script. -/
theorem sourceLines_definition {f : Flow} {d : Definition}
    (hd : d ∈ (Plan.ofFlow f).collected.definitions) (stamp : String) :
    "# --- Node: " ++ remarkText d.nodeName ++ " (" ++ remarkText d.nodeId
        ++ ") function definition ---" ∈ sourceLines (f.compileAt stamp).script ∧
      "# --- End of " ++ remarkText d.nodeName ++ " function definition ---" ∈
        sourceLines (f.compileAt stamp).script := by
  have hopen : Unbroken ("# --- Node: " ++ remarkText d.nodeName ++ " (" ++ remarkText d.nodeId
      ++ ") function definition ---").toList := by
    simp only [unbroken_concat]
    exact ⟨⟨⟨⟨by decide, unbroken_remarkText _⟩, by decide⟩, unbroken_remarkText _⟩, by decide⟩
  have hclose : Unbroken ("# --- End of " ++ remarkText d.nodeName
      ++ " function definition ---").toList := by
    simp only [unbroken_concat]
    exact ⟨⟨by decide, unbroken_remarkText _⟩, by decide⟩
  obtain ⟨s, t, hscript⟩ : ∃ s t, (f.compileAt stamp).script =
      s ++ "\n" ++ d.text ++ "\n" ++ t := by
    obtain ⟨top, middle, bottom, hscript⟩ := exists_script_eq f stamp
    obtain ⟨s, t, hjoin⟩ := exists_join_eq (List.mem_map_of_mem (f := Definition.text) hd) "\n\n"
    have hgap : "\n\n" = "\n" ++ "\n" := rfl
    rw [hscript, hjoin, hgap]
    refine ⟨top ++ s, "\n" ++ "\n" ++ t ++ middle ++ ("\n" ++ String.join
      (((Plan.ofFlow f).nodes.map (block f (Plan.ofFlow f).collected)).map
        (· ++ ("\n" ++ "\n")))) ++ bottom, ?_⟩
    simp only [String.append_assoc]
  have hfront : ") function definition ---\n" = ") function definition ---" ++ "\n" := by
    decide +kernel
  have hback : "\n# --- End of " = "\n" ++ "# --- End of " := by decide +kernel
  rw [hscript]
  delta Definition.text
  rw [hfront, hback]
  constructor
  · have hmem := mem_sourceLines hopen s (String.ofList d.body ++ "\n" ++ "# --- End of "
      ++ remarkText d.nodeName ++ " function definition ---" ++ "\n" ++ t)
    simpa only [String.append_assoc] using hmem
  · have hmem := mem_sourceLines hclose (s ++ "\n" ++ "# --- Node: " ++ remarkText d.nodeName
      ++ " (" ++ remarkText d.nodeId ++ ") function definition ---" ++ "\n" ++ String.ofList d.body) t
    simpa only [String.append_assoc] using hmem

/-- No user text gets out of the documentation string or a comment. Remarks hold no end of a line.
User text in a documentation string is read as its remark, whatever follows but a quote, so the
string at the top is read to the quotes that are written to close it. The comments of definitions
and all lines of blocks, with the comments in them, are lines of the script. -/
theorem user_text_stays_inside (f : Flow) (now : Moment) :
    (∀ s, '\n' ∉ remark s ∧ '\r' ∉ remark s) ∧
    (∀ s rest, rest.head? ≠ some '"' →
      readLiteral .long (docText s ++ rest) =
        putFront (pieces (remark s)) (readLiteral .long rest)) ∧
    (∃ body, (f.compile (.ok now)).1.script.toList = tripleQuote ++
        (headerText docText f now.utc.stamp ++ (tripleQuote ++ '\n' :: '\n' :: body)) ∧
      readLiteral .long
          (headerText docText f now.utc.stamp ++ (tripleQuote ++ '\n' :: '\n' :: body)) =
        some (pieces (headerText remark f now.utc.stamp), '\n' :: '\n' :: body)) ∧
    (∀ d ∈ (Plan.ofFlow f).collected.definitions,
      "# --- Node: " ++ remarkText d.nodeName ++ " (" ++ remarkText d.nodeId
          ++ ") function definition ---" ∈ sourceLines (f.compile (.ok now)).1.script ∧
        "# --- End of " ++ remarkText d.nodeName ++ " function definition ---" ∈
          sourceLines (f.compile (.ok now)).1.script) ∧
    ∀ p ∈ (Plan.ofFlow f).nodes, (blockLines f (Plan.ofFlow f).collected p).map (indent ++ ·) <:+:
      sourceLines (f.compile (.ok now)).1.script := by
  refine ⟨fun s => unbroken_iff.mp (unbroken_remark s), fun s _ => readLiteral_docText_append s, ?_,
    fun d hd => sourceLines_definition hd _, fun p hp => sourceLines_block hp _⟩
  obtain ⟨body, hbody⟩ := exists_script_header f
  exact ⟨body.toList, hbody _, readLiteral_header f now _⟩

end Script

end FlowScript
