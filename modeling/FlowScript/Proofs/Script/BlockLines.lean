import FlowScript.Proofs.Script.Dangling
import FlowScript.Proofs.Script.Hygiene
import FlowScript.Proofs.Script.Literals

/-!
# The lines of a block

No user text breaks a line of a block: a block is its comments and the lines of its node, each
indented once. So the literals in it stay whole, and they stand for the rows of a tabular input and
the name of an output node.

## Main definitions

- `blockLines` — the lines of a block, comments and all, in front of their indentation

## Main results

- `unbroken_of_mem_bodyLines` — the lines of a node fill one line of the script each
- `block_eq` — a block is its lines, indented
- `script_literals_denote` — the literals of a script stand for the texts they are written for
-/

namespace FlowScript

instance (cs : List Char) : Decidable (Unbroken cs) :=
  List.decidableBAll _ cs

theorem unbroken_concat {s t : String} :
    Unbroken (s ++ t).toList ↔ Unbroken s.toList ∧ Unbroken t.toList := by
  rw [String.toList_append, unbroken_append]

theorem IsWord.unbroken {s : String} (h : IsWord s) : Unbroken s.toList :=
  unbroken_iff.mpr ⟨h.not_mem (by decide), h.not_mem (by decide)⟩

namespace Text

theorem unbroken_hex (width n : Nat) : Unbroken (hex width n) := by
  intro c hc
  obtain ⟨k, hk, rfl⟩ := mem_hex hc
  have hdigits : ∀ k < 16, isLineEnd (hexDigit k) = false := by decide
  exact hdigits k hk

theorem unbroken_quotedChar (c : Char) : Unbroken (quotedChar c) := by
  unfold quotedChar
  split
  · next h =>
    rcases (by simpa using h : c = '"' ∨ c = '\\') with rfl | rfl
    · decide
    · decide
  split
  · next h =>
    have hends : isPrintable '\n' = false ∧ isPrintable '\r' = false := by decide +kernel
    rw [unbroken_iff, List.mem_singleton, List.mem_singleton]
    constructor
    · rintro rfl
      rw [hends.1] at h
      cases h
    · rintro rfl
      rw [hends.2] at h
      cases h
  split
  iterate 7 decide
  split
  · exact (show Unbroken ['\\', 'x'] by decide).append (unbroken_hex 2 _)
  split
  · exact (show Unbroken ['\\', 'u'] by decide).append (unbroken_hex 4 _)
  · exact (show Unbroken ['\\', 'U'] by decide).append (unbroken_hex 8 _)

end Text

theorem unbroken_quoted (s : String) : Unbroken (quoted s).toList := by
  rw [quoted, String.toList_ofList]
  intro c hc
  rw [Text.quotedChars, List.mem_cons, List.mem_append, List.mem_singleton] at hc
  rcases hc with rfl | hc | rfl
  · decide
  · obtain ⟨d, -, hd⟩ := List.mem_flatMap.mp hc
    exact Text.unbroken_quotedChar d c hd
  · decide

namespace Script

theorem unbroken_remarkText (s : String) : Unbroken (remarkText s).toList :=
  unbroken_iff.mpr ⟨blank_not_mem_remarkText (by decide) (by decide) s,
    blank_not_mem_remarkText (by decide) (by decide) s⟩

theorem unbroken_literal (s : List Char) : Unbroken (String.ofList (stringLiteral s)).toList := by
  rw [String.toList_ofList]
  exact unbroken_stringLiteral s

theorem unbroken_tableLines {c : Collected} {p : Placed} (hname : IsWord p.name) :
    ∀ line ∈ tableLines c p, Unbroken line.toList := by
  have htable : Unbroken (tableVariable p.name).toList :=
    unbroken_concat.mpr ⟨by decide, hname.unbroken⟩
  cases hrows : c.rows.lookup p.place with
  | some rows =>
    simp only [tableLines, hrows, List.forall_mem_cons, unbroken_concat]
    exact ⟨⟨⟨htable, by decide⟩, unbroken_literal rows⟩,
      ⟨⟨⟨htable, by decide⟩, htable⟩, by decide⟩, by simp⟩
  | none =>
    have hunset : Unbroken "(no source file set)".toList := by decide
    have hsource : ∀ name, Unbroken ("(source file: '" ++ remarkText name ++ "')").toList :=
      fun name => unbroken_concat.mpr ⟨unbroken_concat.mpr ⟨by decide, unbroken_remarkText name⟩,
        by decide⟩
    simp only [tableLines, hrows]
    split
    all_goals
      simp only [List.forall_mem_cons, unbroken_concat]
      refine ⟨⟨⟨⟨htable, by decide⟩, by decide⟩, ?_⟩, by simp⟩
      cases p.node.file? with
      | none => exact hunset
      | some file =>
        dsimp only
        split
        · exact hunset
        · exact hsource file.fileName

theorem unbroken_subFlowLines {p : Placed} (hname : IsWord p.name) :
    ∀ line ∈ subFlowLines p, Unbroken line.toList := by
  have hunknown : Unbroken "unknown sub-flow".toList := by decide
  simp only [subFlowLines, List.forall_mem_cons, unbroken_concat]
  refine ⟨⟨⟨⟨⟨by decide, unbroken_remarkText _⟩, by decide⟩, ?_⟩, by decide⟩,
    ⟨⟨⟨⟨by decide, hname.unbroken⟩, by decide⟩, hname.unbroken⟩, by decide⟩, by simp⟩
  cases p.node.subFlow? with
  | none => exact hunknown
  | some sub =>
    dsimp only
    split
    · exact hunknown
    · exact unbroken_remarkText _

/-- The lines of a call hold neither a line feed nor a carriage return, whatever its inputs are
called. -/
theorem unbroken_callLines {f : Flow} {p : Placed} (hp : p ∈ (Plan.ofFlow f).nodes)
    (hk : p.node.kind = .function) :
    ∀ line ∈ callLines f (Plan.ofFlow f).collected p, Unbroken line.toList := by
  have hbody : callLines f (Plan.ofFlow f).collected p =
      bodyLines f (Plan.ofFlow f).collected p := by simp only [bodyLines, hk]
  cases hcall : p.call? with
  | none =>
    simp only [callLines, Plan.call_at hp hk, hcall, Option.getD_some, List.forall_mem_cons]
    exact ⟨by decide, by simp⟩
  | some function =>
    have hfunction := (Placed.isIdentifier_of_call? (Plan.isWord_name hp) hcall).word
    have hmissing : ∀ end_ : Char, isLineEnd end_ = true →
        ∀ line ∈ callLines f (Plan.ofFlow f).collected p, end_ ∉ line.toList := by
      intro end_ hend
      obtain ⟨hblank, hspace, hword, hmarks, hbetween, hstar, hsign⟩ : Text.isBlank end_ = true ∧
          end_ ≠ ' ' ∧ isWordChar end_ = false ∧ end_ ∉ " (),=".toList ∧ end_ ∉ " ,#".toList ∧
          end_ ≠ '*' ∧ end_ ≠ '=' := by
        rcases (by simpa [isLineEnd] using hend : end_ = '\n' ∨ end_ = '\r') with rfl | rfl
        · decide
        · decide
      have htexts : ∀ a ∈ arguments false (wiredInputs f (Plan.ofFlow f).collected p.node),
          end_ ∉ a.text.toList := by
        intro a ha hmem
        have hpasses := passes_of_mem_arguments (fun port v => Plan.isIdentifier_of_resolve?) ha
        rcases Argument.mem_text hpasses hmem with h | h | h
        · exact hstar h
        · exact hsign h
        · rw [hword] at h
          cases h
      rw [hbody, Plan.bodyLines_of_call hp hk hcall]
      refine not_mem_of_mem_assigned hmarks (hfunction.not_mem hword) ?_ htexts ?_
      · intro t ht
        exact (Plan.isIdentifier_of_mem_targets hp hk hcall ht).word.not_mem hword
      · intro a ha
        exact not_mem_argumentLine hbetween (htexts a ha) (blank_not_mem_comment hblank hspace ha)
    intro line hline
    exact unbroken_iff.mpr ⟨hmissing _ (by decide) line hline, hmissing _ (by decide) line hline⟩

theorem unbroken_sinkLines {f : Flow} {p : Placed} (hp : p ∈ (Plan.ofFlow f).nodes) :
    ∀ line ∈ sinkLines f (Plan.ofFlow f).collected p, Unbroken line.toList := by
  have hvariable : Unbroken (sinkVariable p.name).toList :=
    unbroken_concat.mpr ⟨by decide, (Plan.isWord_name hp).unbroken⟩
  have hindent : Unbroken indent.toList := by decide
  unfold sinkLines
  split
  · simp only [List.forall_mem_cons, unbroken_concat]
    exact ⟨⟨⟨by decide, unbroken_literal _⟩, by decide⟩, by simp⟩
  · next input rest hports =>
    have hsource : Unbroken ((resolve? f (Plan.ofFlow f).collected p.node.id input.id).getD
        ("None  # no source connected to " ++ remarkText p.node.name)).toList := by
      cases hv : resolve? f (Plan.ofFlow f).collected p.node.id input.id with
      | none => exact unbroken_concat.mpr ⟨by decide, unbroken_remarkText _⟩
      | some v => exact (Plan.isIdentifier_of_resolve? hv).word.unbroken
    have hlabel : Unbroken (String.ofList (formatText p.node.name.toList)).toList := by
      rw [String.toList_ofList]
      exact unbroken_formatText _
    simp only [List.forall_mem_cons, unbroken_concat]
    refine ⟨⟨⟨hvariable, by decide⟩, hsource⟩, ⟨⟨by decide, hvariable⟩, by decide⟩,
      ⟨hindent, by decide⟩, ⟨⟨hindent, hvariable⟩, by decide⟩,
      ⟨⟨⟨hindent, by decide⟩, hvariable⟩, by decide⟩, ⟨hindent, by decide⟩, ⟨hindent, by decide⟩,
      ⟨⟨⟨hindent, by decide⟩, by decide⟩, by decide⟩, by decide,
      ⟨⟨⟨⟨⟨hindent, by decide⟩, hlabel⟩, by decide⟩, hvariable⟩, by decide⟩, by simp⟩

/-- The lines of a node fill one line of the script each. -/
theorem unbroken_of_mem_bodyLines {f : Flow} {p : Placed} (hp : p ∈ (Plan.ofFlow f).nodes) :
    ∀ line ∈ bodyLines f (Plan.ofFlow f).collected p, Unbroken line.toList := by
  have hname := Plan.isWord_name hp
  cases hk : p.node.kind with
  | csvInput => simpa only [bodyLines, hk] using unbroken_tableLines hname
  | excelInput => simpa only [bodyLines, hk] using unbroken_tableLines hname
  | subFlow => simpa only [bodyLines, hk] using unbroken_subFlowLines hname
  | function => simpa only [bodyLines, hk] using unbroken_callLines hp hk
  | output => simpa only [bodyLines, hk] using unbroken_sinkLines hp
  | other kind =>
    simp only [bodyLines, hk, List.forall_mem_cons, unbroken_concat]
    exact ⟨⟨⟨by decide, unbroken_quoted _⟩, by decide⟩, by simp⟩

theorem ne_empty_of_mem_bodyLines {f : Flow} {c : Collected} {p : Placed} :
    ∀ line ∈ bodyLines f c p, line ≠ "" := by
  have htable : ∀ line ∈ tableLines c p, line ≠ "" := by
    cases hrows : c.rows.lookup p.place with
    | some rows => simp [tableLines, hrows]
    | none =>
      simp only [tableLines, hrows]
      split
      · simp
      · simp
  unfold bodyLines
  split
  · exact htable
  · exact htable
  · simp [subFlowLines]
  · unfold callLines
    split
    · simp
    · exact ne_empty_of_mem_assigned
  · unfold sinkLines
    split
    · simp
    · simp
  · simp

/-- The lines of a block in front of their indentation. -/
def blockLines (f : Flow) (c : Collected) (p : Placed) : List String :=
  ("# --- Begin node: " ++ remarkText p.node.name ++ " (ID: " ++ remarkText p.node.id ++ ") ---")
    :: (bodyLines f c p ++ ["# --- End node: " ++ remarkText p.node.name ++ " ---"])

theorem unbroken_of_mem_blockLines {f : Flow} {p : Placed} (hp : p ∈ (Plan.ofFlow f).nodes) :
    ∀ line ∈ blockLines f (Plan.ofFlow f).collected p, Unbroken line.toList ∧ line ≠ "" := by
  have hopen : Unbroken ("# --- Begin node: " ++ remarkText p.node.name ++ " (ID: "
      ++ remarkText p.node.id ++ ") ---").toList := by
    simp only [unbroken_concat]
    exact ⟨⟨⟨⟨by decide, unbroken_remarkText _⟩, by decide⟩, unbroken_remarkText _⟩, by decide⟩
  have hclose : Unbroken ("# --- End node: " ++ remarkText p.node.name ++ " ---").toList := by
    simp only [unbroken_concat]
    exact ⟨⟨by decide, unbroken_remarkText _⟩, by decide⟩
  intro line hline
  rcases List.mem_cons.mp hline with rfl | hline
  · exact ⟨hopen, by simp⟩
  rcases List.mem_append.mp hline with hline | hline
  · exact ⟨unbroken_of_mem_bodyLines hp line hline, ne_empty_of_mem_bodyLines line hline⟩
  · rw [List.mem_singleton.mp hline]
    exact ⟨hclose, by simp⟩

theorem indented_of_unbroken {line : String} (h : Unbroken line.toList) (hne : line ≠ "") :
    indented line = indent ++ line := by
  rw [indented, lines_of_oneLine h.oneLine]
  simp [hne]

/-- A block is its lines, indented. -/
theorem block_eq {f : Flow} {p : Placed} (hp : p ∈ (Plan.ofFlow f).nodes) :
    block f (Plan.ofFlow f).collected p =
      String.intercalate "\n" ((blockLines f (Plan.ofFlow f).collected p).map (indent ++ ·)) := by
  show String.intercalate "\n" ((blockLines f (Plan.ofFlow f).collected p).map indented) = _
  rw [List.map_congr_left]
  intro line hline
  obtain ⟨hunbroken, hne⟩ := unbroken_of_mem_blockLines hp line hline
  exact indented_of_unbroken hunbroken hne

theorem ofList_cons_quote (cs : List Char) : String.ofList ('"' :: cs) = "\"" ++ String.ofList cs := by
  rw [← List.singleton_append, String.ofList_append]

/-- The rows of a tabular input are loaded from a literal that stands for them in compact form. -/
theorem exists_tableLines_literal {f : Flow} {p : Placed} (hp : p ∈ (Plan.ofFlow f).nodes)
    (hk : p.node.kind.isTabular = true) {rows : List Char} (hrows : p.rows? = some rows) :
    ∃ inside, bodyLines f (Plan.ofFlow f).collected p =
        [tableVariable p.name ++ "_json_data_str = \"" ++ String.ofList inside,
          tableVariable p.name ++ " = pd.DataFrame(json.loads(" ++ tableVariable p.name
            ++ "_json_data_str))"] ∧
      readLiteral .short inside = some (pieces rows, []) := by
  have hbody : bodyLines f (Plan.ofFlow f).collected p = tableLines (Plan.ofFlow f).collected p := by
    unfold bodyLines
    cases hkind : p.node.kind <;> simp_all [NodeKind.isTabular]
  obtain ⟨inside, hliteral, hread⟩ := exists_stringLiteral_eq rows
  refine ⟨inside, ?_, hread⟩
  have hfront : "_json_data_str = \"" = "_json_data_str = " ++ "\"" := rfl
  rw [hbody, tableLines, Plan.rows_at hp hk, hrows]
  simp only [hliteral, ofList_cons_quote, hfront, String.append_assoc]

/-- An output node without input prints its name. -/
theorem exists_sinkLines_literal {f : Flow} {c : Collected} {p : Placed}
    (hports : p.node.inputPorts = []) :
    ∃ inside, sinkLines f c p = ["print(\"" ++ String.ofList inside] ∧ IsSource inside ∧
      readLiteral .short inside =
        some (pieces (p.node.name ++ ": no input connected").toList, [')']) := by
  refine ⟨Json.escape .plain (p.node.name ++ ": no input connected").toList ++ ['"', ')'], ?_, ?_, ?_⟩
  · have hfront : "print(\"" = "print(" ++ "\"" := rfl
    have hback : String.ofList ['"', ')'] = "\"" ++ ")" := rfl
    simp only [sinkLines, hports, stringLiteral, Json.literal, hfront, ofList_cons_quote,
      String.ofList_append, hback, String.append_assoc]
    rfl
  · have hend : IsSource ['"', ')'] := by simp [IsSource]
    refine isSource_append.mpr ⟨?_, hend⟩
    intro hnull
    obtain ⟨d, -, hd⟩ := List.mem_flatMap.mp hnull
    exact not_control_of_mem_escapeChar hd (by decide)
  · have hclosed : Quoting.closed? .short ['"', ')'] = some [')'] := rfl
    rw [readLiteral_escape_append, readLiteral_closed hclosed, putFront_some, List.append_nil]

/-- What an output node with an input prints in the end: its name and the variable. -/
theorem exists_sinkLines_label {f : Flow} {c : Collected} {p : Placed} (hname : IsWord p.name)
    (hports : p.node.inputPorts ≠ []) :
    ∃ (others : List String) (inside : List Char), sinkLines f c p =
        others ++ ["else:", indent ++ "print(f\"" ++ String.ofList inside] ∧
      (IsSource inside ↔ IsSource p.node.name.toList) ∧
      readLiteral .format inside = some (pieces (p.node.name ++ ": ").toList
        ++ [.field (sinkVariable p.name).toList], [')']) := by
  obtain ⟨input, rest, hinputs⟩ := List.exists_cons_of_ne_nil hports
  obtain ⟨others, hlines⟩ : ∃ others, sinkLines f c p = others ++ ["else:",
      indent ++ "print(f\"" ++ String.ofList (formatText p.node.name.toList) ++ ": \x7b"
        ++ sinkVariable p.name ++ "\x7d\")"] := by
    unfold sinkLines
    rw [hinputs]
    exact ⟨[_, _, _, _, _, _, _, _], rfl⟩
  have hvariable : IsWord (sinkVariable p.name) :=
    IsWord.append (by simp [IsWord, isWordChar]) hname
  have hne : (sinkVariable p.name).toList ≠ [] := by
    show ("output_value_for_" ++ p.name).toList ≠ []
    simp
  have hseparator : ∀ cs, readLiteral .format ([':', ' '] ++ cs) =
      putFront (pieces [':', ' ']) (readLiteral .format cs) :=
    readLiteral_plain_append (List.all_iff_forall_prop.mp (by decide))
  have hclosed : Quoting.closed? .format ['"', ')'] = some [')'] := rfl
  refine ⟨others, formatText p.node.name.toList ++ ([':', ' '] ++ '\x7b' ::
    ((sinkVariable p.name).toList ++ '\x7d' :: ['"', ')'])), ?_, ?_, ?_⟩
  · have hseparated : ": \x7b" = String.ofList [':', ' '] ++ String.ofList ['\x7b'] := rfl
    have hback : "\x7d\")" = String.ofList ['\x7d', '"', ')'] := rfl
    have hbrace : ∀ cs, String.ofList ('\x7b' :: cs) = String.ofList ['\x7b'] ++ String.ofList cs := by
      intro cs
      rw [← String.ofList_append, List.singleton_append]
    rw [hlines, hseparated, hback]
    simp only [String.ofList_append, hbrace (_ ++ _), String.ofList_toList, String.append_assoc]
  · have hnot : '\x00' ∉ (sinkVariable p.name).toList := hvariable.not_mem (by decide)
    rw [isSource_append, isSource_formatText, and_iff_left]
    simpa [IsSource] using hnot
  · rw [readLiteral_formatText_append, hseparator, readLiteral_field hvariable hne,
      readLiteral_closed hclosed, putFront_some, putFront_some, putFront_some]
    simp [pieces]

/-- The literals of a script stand for the texts they are written for. A string literal can be read
by every text; so can the fixed part of a formatted string, though it is no source where the text
holds a null character. No block breaks a line with a literal, the rows of a tabular input are
loaded from their compact form, and an output node prints its name. -/
theorem script_literals_denote (f : Flow) :
    (∀ s, Unbroken (stringLiteral s) ∧ IsSource (stringLiteral s) ∧
      ∃ inside, stringLiteral s = '"' :: inside ∧
        readLiteral .short inside = some (pieces s, [])) ∧
    (∀ s, Unbroken (formatText s) ∧ (IsSource (formatText s) ↔ IsSource s) ∧
      ∀ rest, readLiteral .format (formatText s ++ rest) =
        putFront (pieces s) (readLiteral .format rest)) ∧
    ∀ p ∈ (Plan.ofFlow f).nodes,
      (block f (Plan.ofFlow f).collected p = String.intercalate "\n"
          ((blockLines f (Plan.ofFlow f).collected p).map (indent ++ ·)) ∧
        ∀ line ∈ blockLines f (Plan.ofFlow f).collected p, Unbroken line.toList) ∧
      (p.node.kind.isTabular = true → ∀ file rows tree, p.node.file? = some file →
        rowsOf? file = some rows → Json.parse rows = .ok tree →
        ∃ inside, bodyLines f (Plan.ofFlow f).collected p =
            [tableVariable p.name ++ "_json_data_str = \"" ++ String.ofList inside,
              tableVariable p.name ++ " = pd.DataFrame(json.loads(" ++ tableVariable p.name
                ++ "_json_data_str))"] ∧
          readLiteral .short inside = some (pieces (tree.compact .plain), [])) ∧
      (p.node.kind = .output → p.node.inputPorts = [] →
        ∃ inside, bodyLines f (Plan.ofFlow f).collected p = ["print(\"" ++ String.ofList inside] ∧
          IsSource inside ∧ readLiteral .short inside =
            some (pieces (p.node.name ++ ": no input connected").toList, [')'])) ∧
      (p.node.kind = .output → p.node.inputPorts ≠ [] →
        ∃ (others : List String) (inside : List Char), bodyLines f (Plan.ofFlow f).collected p =
            others ++ ["else:", indent ++ "print(f\"" ++ String.ofList inside] ∧
          (IsSource inside ↔ IsSource p.node.name.toList) ∧
          readLiteral .format inside = some (pieces (p.node.name ++ ": ").toList
            ++ [.field (sinkVariable p.name).toList], [')'])) := by
  refine ⟨?_, ?_, ?_⟩
  · intro s
    exact ⟨unbroken_stringLiteral s, isSource_stringLiteral s, exists_stringLiteral_eq s⟩
  · intro s
    exact ⟨unbroken_formatText s, isSource_formatText, readLiteral_formatText_append s⟩
  · intro p hp
    refine ⟨⟨block_eq hp, fun line h => (unbroken_of_mem_blockLines hp line h).1⟩, ?_, ?_, ?_⟩
    · intro hk file rows tree hfile hrows hparse
      exact exists_tableLines_literal hp hk (by simp [Placed.rows?, hfile, hrows, hparse])
    · intro hk hports
      simp only [bodyLines, hk]
      exact exists_sinkLines_literal hports
    · intro hk hports
      simp only [bodyLines, hk]
      exact exists_sinkLines_label (Plan.isWord_name hp) hports

/-- A table whose only row is a line feed and a quote. -/
def quotesNode : Node :=
  { id := "t", kind := .csvInput, name := "t"
    outputs := [some { id := "o", nodeId := "t", direction := .output }]
    payload := some (.file { preview := some { rows := some "[ \"\\n\\\"\" ]".toList } }) }

/-- An output node of the given name. -/
def labelNode (name : String) : Node :=
  { id := "s", kind := .output, name := name
    inputs := [some { id := "i", nodeId := "s", direction := .input }] }

/-- The table, shown under a name. -/
def labelFlow (name : String) : Flow :=
  { nodes := [some quotesNode, some (labelNode name)]
    connections := [some ⟨"c", "t", "o", "s", "i"⟩] }

theorem labelFlow_nodes (name : String) : (Plan.ofFlow (labelFlow name)).nodes =
    [⟨0, "t", quotesNode⟩, ⟨1, "s", labelNode name⟩] := by
  have hplaces : (Ordering.ofGraph (Graph.ofFlow (labelFlow name))).places = [0, 1] := rfl
  have hids : (labelFlow name).liveNodes.map (·.id) = ["t", "s"] := rfl
  have hnames : nodeNames (labelFlow name).liveNodes = ["t", "s"] := by
    rw [nodeNames, hids]
    decide +kernel
  rw [Plan.ofFlow_nodes, hplaces, placedNodes, hnames]
  rfl

/-- The rows are loaded and the braces and the quote of the name are shown. -/
theorem labelFlow_literals_denote :
    (∃ inside value, bodyLines (labelFlow "\x7b\"\x7d\\")
          (Plan.ofFlow (labelFlow "\x7b\"\x7d\\")).collected ⟨0, "t", quotesNode⟩ =
        ["df_t_json_data_str = \"" ++ String.ofList inside, value] ∧
      readLiteral .short inside = some (pieces "[\"\\n\\\"\"]".toList, [])) ∧
    ∃ (others : List String) (inside : List Char), bodyLines (labelFlow "\x7b\"\x7d\\")
          (Plan.ofFlow (labelFlow "\x7b\"\x7d\\")).collected ⟨1, "s", labelNode "\x7b\"\x7d\\"⟩ =
        others ++ ["else:", indent ++ "print(f\"" ++ String.ofList inside] ∧ IsSource inside ∧
      readLiteral .format inside = some (pieces "\x7b\"\x7d\\: ".toList
        ++ [.field "output_value_for_s".toList], [')']) := by
  obtain ⟨-, -, hnodes⟩ := script_literals_denote (labelFlow "\x7b\"\x7d\\")
  obtain ⟨-, htable, -⟩ := hnodes ⟨0, "t", quotesNode⟩ (by simp [labelFlow_nodes])
  obtain ⟨-, -, -, hsink⟩ := hnodes ⟨1, "s", labelNode "\x7b\"\x7d\\"⟩ (by simp [labelFlow_nodes])
  obtain ⟨inside, hlines, hread⟩ := htable rfl _ _ (.array [.string "\\n\\\"".toList]) rfl rfl rfl
  obtain ⟨others, label, hshown, hsource, hlabel⟩ := hsink rfl (by simp [labelNode, Node.inputPorts])
  have hfree : IsSource (labelNode "\x7b\"\x7d\\").name.toList := by simp [labelNode, IsSource]
  exact ⟨⟨inside, _, hlines, hread⟩, others, label, hshown, hsource.mpr hfree, hlabel⟩

/-- A null character in the name of an output node gets into the code of the script. -/
theorem null_label_is_no_source :
    ¬ ∀ f : Flow, ∀ p ∈ (Plan.ofFlow f).nodes, p.node.kind = .output →
      ∀ line ∈ bodyLines f (Plan.ofFlow f).collected p, IsSource line.toList := by
  intro h
  have hlines := h (labelFlow "\x00") ⟨1, "s", labelNode "\x00"⟩ (by simp [labelFlow_nodes]) rfl
  obtain ⟨others, inside, hshown, hsource, -⟩ := exists_sinkLines_label
    (f := labelFlow "\x00") (c := (Plan.ofFlow (labelFlow "\x00")).collected)
    (p := ⟨1, "s", labelNode "\x00"⟩) (by simp [IsWord, isWordChar])
    (by simp [labelNode, Node.inputPorts])
  have hlabel := hlines (indent ++ "print(f\"" ++ String.ofList inside) (by
    simp only [bodyLines, labelNode] at hshown ⊢
    simp [hshown])
  rw [String.toList_append, isSource_append, String.toList_ofList, hsource] at hlabel
  exact hlabel.2 (by simp [labelNode])

end Script

end FlowScript
