import FlowScript.Proofs.Source.Bracketing
import FlowScript.Proofs.Source.Continued
import FlowScript.Proofs.Source.Headers
import FlowScript.Proofs.Text.Lines

/-!
# Reading a written header

A header that is written out, with any layout around the commas of its parameter list, is read back:
the name is found, and so are the names of the parameters, whatever annotations and defaults they
have, as long as the brackets of those nest and their string literals are closed.

## Main definitions

- `Source.Parameter` — a parameter of a written header
- `Source.Header` — a written header

## Main results

- `Source.header?_append_opens` — the first opening of a text is found behind any text without one
- `Source.Parameter.paramName_text` — the name of a written parameter
- `Source.Header.header?_text` — a written header is the first header of its text
- `signature_of_written` — the signature of a source with a written header
-/

namespace FlowScript

namespace Source

open Text

/-! ## The first opening of a text -/

theorem openingHere?_eq_none_of_opening? {front cs : List Char} (h : opening? (front ++ cs) = none) :
    openingHere? cs = none := by
  induction front with
  | nil =>
    cases cs with
    | nil => rfl
    | cons c cs =>
      rw [List.nil_append, opening?] at h
      cases hhere : openingHere? (c :: cs) with
      | none => rfl
      | some found => simp [hhere] at h
  | cons c front ih =>
    rw [List.cons_append, opening?] at h
    cases hhere : openingHere? (c :: (front ++ cs)) with
    | none =>
      rw [hhere] at h
      exact ih h
    | some found => simp [hhere] at h

/-- The search for a header passes over a text without opening, since no opening starts in it and ends
behind it. -/
theorem header?_append_opens {front rest name inside gap gap' : List Char}
    (hfront : opening? front = none) (h : Opens rest name inside gap gap') :
    header? (front ++ rest) = header? rest := by
  refine header?_append_of_none fun a b hab hb => ?_
  have hnone : openingHere? b = none := openingHere?_eq_none_of_opening? (hab ▸ hfront)
  by_cases hbracket : '(' ∈ b
  · exact openingHere?_append_of_none hnone hbracket rest
  · rw [Option.eq_none_iff_forall_ne_some]
    rintro ⟨name', inside'⟩ hsome
    obtain ⟨e, e', ho⟩ := exists_opens_of_openingHere? hsome
    obtain ⟨hfree, htext⟩ := h.first_bracket
    obtain ⟨hfree', htext'⟩ := ho.first_bracket
    -- the first bracket of both is the same one
    rw [htext, ← List.append_assoc] at htext'
    obtain ⟨-, rfl⟩ := append_sep_inj (by simpa [hbracket] using hfree) hfree' htext'
    exact hb (h.eq_nil_of_append ho)

/-! ## Blanks -/

/-- A blank is none of the characters that mean something in a parameter list. -/
theorem plain_of_isBlank {c : Char} (h : isBlank c = true) :
    isPlainText c = true ∧ c ≠ ',' ∧ c ≠ ':' ∧ c ≠ '=' := by
  have hne : ∀ {d : Char}, isBlank d = false → c ≠ d := by
    rintro d hd rfl
    rw [h] at hd
    cases hd
  refine ⟨?_, hne (by decide), hne (by decide), hne (by decide)⟩
  simp [isPlainText, isQuote, isOpener, isCloser, @hne '\'' (by decide), @hne '"' (by decide),
    @hne '(' (by decide), @hne '[' (by decide), @hne '\x7b' (by decide), @hne ')' (by decide),
    @hne ']' (by decide), @hne '\x7d' (by decide)]

/-! ## Parameters -/

/-- A character of the name of a parameter, or of the stars or the slash in its place. -/
def isParameterChar (c : Char) : Bool :=
  isPlainText c && !isBlank c && c != ',' && c != ':' && c != '='

/-- What a mark introduces, with the mark. -/
def marked (mark : Char) (text : Option (List Char)) : List Char :=
  text.elim [] (mark :: ·)

/-- A parameter as it is written. Blanks behind an annotation or a default are part of it. -/
structure Parameter where
  margin : List Char
  name : List Char
  gap : List Char
  annotation : Option (List Char)
  default : Option (List Char)
  margin_blank : ∀ c ∈ margin, isBlank c = true
  name_ne : name ≠ []
  word : ∀ c ∈ name, isParameterChar c = true
  gap_blank : ∀ c ∈ gap, isBlank c = true
  annotation_nested : ∀ text ∈ annotation, Nested false text
  default_nested : ∀ text ∈ default, Nested false text

namespace Parameter

/-- The parameter between the commas. -/
def text (p : Parameter) : List Char :=
  p.margin ++ (p.name ++ p.gap) ++ (marked ':' p.annotation ++ marked '=' p.default)

theorem isParameterChar_iff {c : Char} :
    isParameterChar c = true ↔
      isPlainText c = true ∧ isBlank c = false ∧ c ≠ ',' ∧ c ≠ ':' ∧ c ≠ '=' := by
  simp [isParameterChar, and_assoc]

/-- The name and the blanks around it have none of the characters that end a name. -/
theorem plain_front (p : Parameter) :
    ∀ c ∈ p.margin ++ (p.name ++ p.gap), isPlainText c = true ∧ c ≠ ',' ∧ c ≠ ':' ∧ c ≠ '=' := by
  intro c hc
  rcases List.mem_append.mp hc with hc | hc
  · exact plain_of_isBlank (p.margin_blank c hc)
  · rcases List.mem_append.mp hc with hc | hc
    · obtain ⟨hplain, -, hends⟩ := isParameterChar_iff.mp (p.word c hc)
      exact ⟨hplain, hends⟩
    · exact plain_of_isBlank (p.gap_blank c hc)

theorem nested_marked {mark : Char} (hmark : isPlainText mark = true ∧ mark ≠ ',')
    {text : Option (List Char)} (h : ∀ inner ∈ text, Nested false inner) :
    Nested false (marked mark text) := by
  cases text with
  | none => exact .nil
  | some inner => exact .plain hmark.1 (fun hcomma => absurd hcomma hmark.2) (h inner rfl)

theorem nested_text (p : Parameter) : Nested false p.text := by
  refine Nested.append (nested_of_all (List.all_eq_true.mpr fun c hc => ?_)) (Nested.append ?_ ?_)
  · simp [(p.plain_front c hc).1, (p.plain_front c hc).2.1]
  · exact nested_marked (by decide) p.annotation_nested
  · exact nested_marked (by decide) p.default_nested

/-- Behind the name there is a colon, an equals sign, or nothing. -/
theorem head?_marks (p : Parameter) :
    ∀ c, (marked ':' p.annotation ++ marked '=' p.default).head? = some c → c = ':' ∨ c = '=' := by
  intro c hc
  cases ha : p.annotation with
  | some text =>
    simp only [ha, marked, Option.elim_some, List.cons_append, List.head?_cons,
      Option.some.injEq] at hc
    exact .inl hc.symm
  | none =>
    cases hd : p.default with
    | some text =>
      simp only [ha, hd, marked, Option.elim_none, Option.elim_some, List.nil_append,
        List.head?_cons, Option.some.injEq] at hc
      exact .inr hc.symm
    | none => simp [ha, hd, marked] at hc

/-- The name of a written parameter is found. -/
theorem paramName_text (p : Parameter) : paramName p.text = p.name := by
  have hname : ∀ c ∈ p.name, isBlank c = false :=
    fun c hc => (isParameterChar_iff.mp (p.word c hc)).2.1
  have hcut : ((p.text.takeWhile (· != ':')).takeWhile (· != '=')) =
      p.margin ++ (p.name ++ p.gap) := by
    rw [List.takeWhile_takeWhile]
    refine (takeWhile_append_stop _ ?_ ?_).1
    · intro c hc
      obtain ⟨-, -, hcolon, hequals⟩ := p.plain_front c hc
      simp [hcolon, hequals]
    · intro c hc
      rcases p.head?_marks c hc with rfl | rfl
      · decide
      · decide
  rw [paramName, hcut, strip_append p.margin_blank p.name_ne
    (fun c hc => hname c (List.mem_of_head? hc)) (fun c hc => hname c (List.mem_of_getLast? hc)),
    dropEndWhile_of_all p.gap_blank, List.append_nil]

end Parameter

/-! ## Headers -/

theorem Nested.weaken {commas : Bool} {text : List Char} (h : Nested commas text) :
    Nested true text := by
  induction h with
  | nil => exact .nil
  | plain hc _ _ ih => exact .plain hc (fun _ => rfl) ih
  | literal hquote hbody _ ih => exact .literal hquote hbody ih
  | group pair hinner _ _ ih => exact .group pair hinner ih

theorem nested_glue {pieces : List (List Char)} (h : ∀ piece ∈ pieces, Nested false piece) :
    Nested true (glue [','] pieces) := by
  induction pieces with
  | nil => exact .nil
  | cons piece rest ih =>
    obtain ⟨hpiece, hrest⟩ := List.forall_mem_cons.mp h
    cases rest with
    | nil => exact hpiece.weaken
    | cons next rest =>
      rw [glue_cons_cons, List.append_assoc]
      exact hpiece.weaken.append (.plain (by decide) (fun _ => rfl) (ih hrest))

/-- The parameter names of pieces that commas join. -/
theorem paramNames_glue {pieces : List (List Char)} (h : ∀ piece ∈ pieces, Nested false piece) :
    paramNames (glue [','] pieces) =
      (pieces.map paramName).filter (fun name => !name.isEmpty && !isReceiver name) := by
  cases pieces with
  | nil => decide
  | cons piece rest => rw [paramNames, splitTopLevel_glue (List.cons_ne_nil piece rest) h]

theorem paramName_blank {text : List Char} (h : ∀ c ∈ text, isBlank c = true) :
    paramName text = [] := by
  have hkeep : ∀ c ∈ text, (c != ':') = true ∧ (c != '=') = true := by
    intro c hc
    simpa using (plain_of_isBlank (h c hc)).2.2
  rw [paramName, List.takeWhile_eq_self_iff.mpr fun c hc => (hkeep c hc).1,
    List.takeWhile_eq_self_iff.mpr fun c hc => (hkeep c hc).2, strip_eq_nil h]

theorem isIdentChar_of_isWordChar {c : Char} (h : isWordChar c = true) : isIdentChar c = true := by
  simp only [isIdentChar, isIdentStart, isWordChar, Bool.or_eq_true] at h ⊢
  tauto

/-- A header as it is written. -/
structure Header where
  /-- The blanks behind `def`. -/
  gap : List Char
  name : String
  /-- The blanks behind the name. -/
  gap' : List Char
  params : List Parameter
  /-- The blanks behind a last comma, or all there is between the brackets. -/
  loose : Option (List Char)
  /-- The blanks behind the parameter list. -/
  outer : List Char
  /-- What an arrow introduces. -/
  result : Option (List Char)
  gap_ne : gap ≠ []
  gap_blank : ∀ c ∈ gap, isSpace c = true
  identifier : IsIdentifier name
  gap'_blank : ∀ c ∈ gap', isSpace c = true
  loose_blank : ∀ text ∈ loose, ∀ c ∈ text, isBlank c = true
  outer_blank : ∀ c ∈ outer, isBlank c = true ∧ c ≠ '\n'
  result_line : ∀ text ∈ result, '\n' ∉ text

namespace Header

/-- What stands between the commas of the parameter list. -/
def pieces (h : Header) : List (List Char) :=
  h.params.map Parameter.text ++ h.loose.toList

/-- The arrow with what it introduces, and the colon. -/
def colon (h : Header) : List Char :=
  h.result.elim [] ('-' :: '>' :: ·) ++ [':']

/-- The text from `def` to the colon. -/
def text (h : Header) : List Char :=
  ['d', 'e', 'f'] ++ h.gap ++ h.name.toList ++ h.gap' ++ ('(' :: glue [','] h.pieces) ++
    (')' :: (h.outer ++ h.colon))

/-- The names of the parameters that become inputs. -/
def inputs (h : Header) : List (List Char) :=
  (h.params.map Parameter.name).filter (fun name => !isReceiver name)

theorem opens (h : Header) (body : List Char) :
    Opens (h.text ++ body) h.name.toList
      (glue [','] h.pieces ++ (')' :: (h.outer ++ (h.colon ++ body)))) h.gap h.gap' where
  text := by simp [text]
  gap_ne := h.gap_ne
  gap_blank := h.gap_blank
  start := h.identifier.start
  word := fun c hc => isIdentChar_of_isWordChar (h.identifier.word c hc)
  gap'_blank := h.gap'_blank

theorem nested_pieces (h : Header) : ∀ piece ∈ h.pieces, Nested false piece := by
  intro piece hpiece
  rcases List.mem_append.mp hpiece with hp | hp
  · obtain ⟨p, -, rfl⟩ := List.mem_map.mp hp
    exact p.nested_text
  · refine nested_of_all (List.all_eq_true.mpr fun c hc => ?_)
    have hblank := plain_of_isBlank (h.loose_blank piece (Option.mem_toList.mp hp) c hc)
    simp [hblank.1, hblank.2.1]

theorem paramNames_pieces (h : Header) : paramNames (glue [','] h.pieces) = h.inputs := by
  have hloose : ((h.loose.toList).map paramName).filter
      (fun name => !name.isEmpty && !isReceiver name) = [] := by
    rw [List.filter_eq_nil_iff]
    intro name hname
    obtain ⟨text, htext, rfl⟩ := List.mem_map.mp hname
    simp [paramName_blank (h.loose_blank text (Option.mem_toList.mp htext))]
  rw [paramNames_glue h.nested_pieces, pieces, List.map_append, List.filter_append, hloose,
    List.append_nil, List.map_map, inputs]
  have hnames : (h.params.map (paramName ∘ Parameter.text)) = h.params.map Parameter.name :=
    List.map_congr_left fun p _ => p.paramName_text
  rw [hnames]
  refine List.filter_congr fun name hname => ?_
  obtain ⟨p, -, rfl⟩ := List.mem_map.mp hname
  simp [p.name_ne]

theorem colon_line (h : Header) : ∀ c ∈ h.colon, (c != '\n') = true := by
  intro c hc
  cases hr : h.result with
  | none =>
    obtain rfl : c = ':' := by simpa [colon, hr] using hc
    decide
  | some text =>
    simp only [colon, hr, Option.elim_some, List.cons_append, List.mem_cons, List.mem_append,
      List.not_mem_nil, or_false] at hc
    rcases hc with rfl | rfl | hc | rfl
    · decide
    · decide
    · have hne : c ≠ '\n' := fun heq => h.result_line text hr (heq ▸ hc)
      simpa using hne
    · decide

theorem head?_colon (h : Header) : ∀ c ∈ h.colon.head?, isBlank c = false := by
  intro c hc
  cases hr : h.result with
  | none =>
    obtain rfl : ':' = c := by simpa [colon, hr] using hc
    decide
  | some text =>
    obtain rfl : '-' = c := by simpa [colon, hr] using hc
    decide

/-- The line of the parameter list completes the header, whatever follows the colon. -/
theorem endsHeader_colon (h : Header) (body : List Char) :
    endsHeader (h.outer ++ (h.colon ++ body)) = true := by
  have hline : (h.outer ++ (h.colon ++ body)).takeWhile (· != '\n') =
      h.outer ++ (h.colon ++ body.takeWhile (· != '\n')) := by
    rw [List.takeWhile_append_of_pos fun c hc => by simpa using (h.outer_blank c hc).2,
      List.takeWhile_append_of_pos h.colon_line]
  have hlast : ∀ c ∈ h.colon.getLast?, isBlank c = false := by
    intro c hc
    obtain rfl : ':' = c := by simpa [colon] using hc
    decide
  have hstrip := strip_append (fun c hc => (h.outer_blank c hc).1) (by simp [colon]) h.head?_colon
    hlast (body.takeWhile (· != '\n'))
  simp only [endsHeader, hline, hstrip]
  cases hr : h.result with
  | none => simp [colon, hr, startsWith, dropFront?]
  | some text => simp [colon, hr, startsWith, dropFront?]

/-- A written header is the first header of its text. -/
theorem header?_text (h : Header) (body : List Char) :
    header? (h.text ++ body) = some (h.name.toList, glue [','] h.pieces) := by
  have hclosed : closing? 0 .outside
      (glue [','] h.pieces ++ (')' :: (h.outer ++ (h.colon ++ body)))) =
      some (glue [','] h.pieces, h.outer ++ (h.colon ++ body)) := by
    rw [closing?_nested (nested_glue h.nested_pieces), closing?_closer (by decide), behind_some,
      List.append_nil]
  have hopens := (h.opens body).openingHere?
  obtain ⟨c, cs, hcs⟩ := List.exists_cons_of_ne_nil (l := h.text ++ body) (by simp [text])
  rw [hcs] at hopens ⊢
  simp only [header?, hopens, hclosed, h.endsHeader_colon body, if_true]

end Header

end Source

open Source

/-- A source with a written header, behind a text without opening and in front of any body, has the
name of the header and its parameters as inputs, in order and without receivers. -/
theorem signature_of_written (h : Header) (front body : String)
    (hfront : opening? front.toList = none) :
    (Signature.ofSource (front ++ String.ofList h.text ++ body)).name = h.name ∧
    (Signature.ofSource (front ++ String.ofList h.text ++ body)).inputs =
      h.inputs.map String.ofList := by
  have hheader : header? (front ++ String.ofList h.text ++ body).toList =
      some (h.name.toList, Text.glue [','] h.pieces) := by
    rw [String.toList_append, String.toList_append, String.toList_ofList, List.append_assoc,
      header?_append_opens hfront (h.opens body.toList), h.header?_text]
  constructor
  · simp only [Signature.ofSource, hheader, String.ofList_toList]
  · simp only [Signature.ofSource, hheader, h.paramNames_pieces]

/-- A parameter of a single word. -/
def Source.Parameter.ofWord (margin name : List Char)
    (hmargin : ∀ c ∈ margin, Text.isBlank c = true) (hne : name ≠ [])
    (hword : ∀ c ∈ name, isParameterChar c = true) : Parameter where
  margin := margin
  name := name
  gap := []
  annotation := none
  default := none
  margin_blank := hmargin
  name_ne := hne
  word := hword
  gap_blank := by simp
  annotation_nested := by simp
  default_nested := by simp

/-- An annotation with a comma in brackets. -/
theorem nested_dict : Nested false " Dict[str, int] ".toList := by
  have hgroup : Nested false ('[' :: ("str, int".toList ++ ']' :: [' '])) :=
    .group (by decide) (nested_of_all (by decide)) (nested_of_all (by decide))
  exact Nested.append (s := " Dict".toList) (nested_of_all (by decide)) hgroup

/-- A default with an escaped quote and a bracket in a literal. -/
theorem nested_quoted : Nested false " f('a,\\')', 2)".toList := by
  have hbody : LiteralBody '\'' "a,\\')".toList :=
    .plain (by decide) (by decide) (.plain (by decide) (by decide)
      (.escape (.plain (by decide) (by decide) .nil)))
  have hinner : Nested true ('\'' :: ("a,\\')".toList ++ '\'' :: ", 2".toList)) :=
    .literal (by decide) hbody (nested_of_all (by decide))
  have hgroup : Nested false
      ('(' :: (('\'' :: ("a,\\')".toList ++ '\'' :: ", 2".toList)) ++ ')' :: [])) :=
    .group (by decide) hinner .nil
  exact Nested.append (s := " f".toList) (nested_of_all (by decide)) hgroup

/-- A method with brackets, commas and quotes around its parameters. -/
def pickHeader : Header where
  gap := [' ']
  name := "pick"
  gap' := []
  params :=
    [.ofWord [] "self".toList (by simp) (by decide) (List.all_eq_true.mp (by decide)),
      { margin := ['\n', ' ']
        name := "keys".toList
        gap := []
        annotation := some " Dict[str, int] ".toList
        default := some " f('a,\\')', 2)".toList
        margin_blank := List.all_eq_true.mp (by decide)
        name_ne := by decide
        word := List.all_eq_true.mp (by decide)
        gap_blank := by simp
        annotation_nested := by simpa using nested_dict
        default_nested := by simpa using nested_quoted },
      .ofWord [] "*".toList (by simp) (by decide) (List.all_eq_true.mp (by decide)),
      .ofWord [' '] "**rest".toList (List.all_eq_true.mp (by decide)) (by decide)
        (List.all_eq_true.mp (by decide))]
  loose := some ['\n']
  outer := [' ']
  result := some " List[str]".toList
  gap_ne := by decide
  gap_blank := List.all_eq_true.mp (by decide)
  identifier := by
    refine ⟨?_, 'p', ['i', 'c', 'k'], by decide, by decide⟩
    unfold IsWord
    exact List.all_eq_true.mp (by decide)
  gap'_blank := by simp
  loose_blank := by
    rintro _ ⟨⟩
    exact List.all_eq_true.mp (by decide)
  outer_blank := by simp; decide
  result_line := by simp

/-- The signature has the parameters of the method but the first, with their stars and without their
annotations and defaults. -/
theorem pickHeader_signature :
    String.ofList pickHeader.text =
      "def pick(self,\n keys: Dict[str, int] = f('a,\\')', 2),*, **rest,\n) -> List[str]:" ∧
    opening? "import re  # def\n".toList = none ∧
    (Signature.ofSource
      ("import re  # def\n" ++ String.ofList pickHeader.text ++ "\n  return keys")).name = "pick" ∧
    (Signature.ofSource
      ("import re  # def\n" ++ String.ofList pickHeader.text ++ "\n  return keys")).inputs =
        ["keys", "*", "**rest"] := by
  have hfront : opening? "import re  # def\n".toList = none := by decide +kernel
  obtain ⟨hname, hinputs⟩ :=
    signature_of_written pickHeader "import re  # def\n" "\n  return keys" hfront
  refine ⟨by decide +kernel, hfront, hname, ?_⟩
  rw [hinputs]
  decide +kernel

end FlowScript
