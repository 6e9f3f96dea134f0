import FlowScript.Proofs.Script.Binding
import FlowScript.Proofs.Script.BlockLines
import FlowScript.Proofs.Script.CallSyntax
import FlowScript.Proofs.Script.SharedFindings

/-!
# Calls of functions with plain parameters

Where every input of a function node stands for a parameter of its own, without stars and markers,
the call fills each parameter once: from its variable, or with `None` where there is no wire. That
holds of the call as it stands in the script, with its comments and its layout, and every `None` is
noted once. A parameter may have any identifier here, reserved words too, so calls are read by their
text and not with `readCall`.

## Main definitions

- `joinLines` — a text without comments and line ends
- `readPlainCall` — the function and the arguments of a call
- `bindPlain` — the values that arguments give to parameters
- `givenFor` — the arguments for some inputs

## Main results

- `readPlainCall_callText` — the arguments are read back from the lines of a call
- `bindPlain_givenFor` — they give each parameter its value
- `inputNotes_of_plain` — the notes for inputs without a source
- `plain_call_fills_parameters` — all of it for the nodes of a flow
-/

namespace FlowScript.Script

open Text

/-! ## The reader -/

/-- The text without comments and line ends. The flag tells that the text starts in a comment, which
reaches to the end of its line. -/
def joinLines : Bool → List Char → List Char
  | _, [] => []
  | remark, c :: cs =>
    if isLineEnd c then joinLines false cs
    else if remark || c == '#' then joinLines true cs
    else c :: joinLines false cs

/-- An argument of a call: the parameter that it names, if any, and the value. -/
structure Given where
  parameter : Option String
  value : String
  deriving DecidableEq

/-- Words are made of letters, digits and underscores. -/
def isWordText (cs : List Char) : Bool :=
  !cs.isEmpty && cs.all isWordChar

/-- The argument that a text stands for. -/
def given? (text : List Char) : Option Given :=
  match cut '=' text with
  | [value] => if isWordText value then some ⟨none, String.ofList value⟩ else none
  | [name, value] =>
    if isWordText name && isWordText value then some ⟨some (String.ofList name), String.ofList value⟩
    else none
  | _ => none

/-- The texts between the commas, without blanks around them. There may be a comma at the end. -/
def argumentTexts (inside : List Char) : List (List Char) :=
  let texts := (cut ',' inside).map strip
  if texts.getLast? = some [] then texts.dropLast else texts

/-- The function that a call names, and the arguments between the brackets. -/
def readPlainCall (text : List Char) : Option (String × List Given) :=
  let call := strip (joinLines false text)
  match call.dropWhile isWordChar with
  | '(' :: rest =>
    if rest.getLast? = some ')' then
      ((argumentTexts rest.dropLast).mapM given?).map
        (fun given => (String.ofList (call.takeWhile isWordChar), given))
    else none
  | _ => none

/-- The value that is given to a parameter by name, when it is given just once. -/
def onlyNamed? (given : List Given) (parameter : String) : Option String :=
  match given.filter (fun g => g.parameter == some parameter) with
  | [g] => some g.value
  | _ => none

/-- Fills every parameter by name, with no argument left over. -/
def bindByName (parameters : List String) (given : List Given) : Option (List (String × String)) :=
  if given.length = parameters.length then
    parameters.mapM (fun n => (onlyNamed? given n).map (fun v => (n, v)))
  else none

/-- Fills the parameters in order as long as the arguments name none, and by name from there on. Each
is filled once, and no argument is left over. -/
def bindPlain : List String → List Given → Option (List (String × String))
  | parameters, [] => bindByName parameters []
  | parameters, g :: given =>
    match g.parameter, parameters with
    | some _, _ => bindByName parameters (g :: given)
    | none, [] => none
    | none, n :: rest => (bindPlain rest given).map (fun values => (n, g.value) :: values)

/-! ## What is given -/

namespace Given

/-- An argument as it is written. -/
def text (g : Given) : String :=
  match g.parameter with
  | none => g.value
  | some n => n ++ "=" ++ g.value

/-- The parameter and the value are identifiers. -/
structure Named (g : Given) : Prop where
  parameter : ∀ n ∈ g.parameter, IsIdentifier n
  value : IsIdentifier g.value

end Given

/-- The arguments for some inputs with their sources: by position up to the first one without a
source, by name from there on. -/
def givenFor : Bool → List (String × Option String) → List Given
  | _, [] => []
  | _, (n, none) :: rest => ⟨some n, "None"⟩ :: givenFor true rest
  | byName, (n, some v) :: rest => ⟨if byName then some n else none, v⟩ :: givenFor byName rest

theorem givenFor_true (inputs : List (String × Option String)) :
    givenFor true inputs = inputs.map (fun i => ⟨some i.1, i.2.getD "None"⟩) := by
  induction inputs with
  | nil => rfl
  | cons i rest ih =>
    obtain ⟨n, source⟩ := i
    cases source with
    | none => rw [givenFor, ih, List.map_cons, Option.getD_none]
    | some v => rw [givenFor, ih, List.map_cons, Option.getD_some, if_pos rfl]

theorem named_of_mem_givenFor {inputs : List (String × Option String)}
    (h : ∀ i ∈ inputs, IsIdentifier i.1 ∧ ∀ v ∈ i.2, IsIdentifier v) {byName : Bool} :
    ∀ g ∈ givenFor byName inputs, g.Named := by
  have hnone : IsIdentifier "None" := Operand.isIdentifier_text (v := .none) trivial
  induction inputs generalizing byName with
  | nil => simp [givenFor]
  | cons i rest ih =>
    obtain ⟨n, source⟩ := i
    obtain ⟨⟨hn, hsource⟩, hrest⟩ := List.forall_mem_cons.mp h
    intro g hg
    cases source with
    | none =>
      rcases List.mem_cons.mp hg with rfl | hg
      · exact ⟨by simpa using hn, hnone⟩
      · exact ih hrest g hg
    | some v =>
      rcases List.mem_cons.mp hg with rfl | hg
      · refine ⟨?_, hsource v rfl⟩
        cases byName
        · simp
        · simpa using hn
      · exact ih hrest g hg

/-- Behind an argument that names its parameter all others do. -/
theorem givenFor_pairwise (byName : Bool) (inputs : List (String × Option String)) :
    (givenFor byName inputs).Pairwise (fun a b => a.parameter ≠ none → b.parameter ≠ none) := by
  have htrue : ∀ inputs, ∀ g ∈ givenFor true inputs, g.parameter ≠ none := by
    intro inputs g hg
    rw [givenFor_true] at hg
    obtain ⟨i, -, rfl⟩ := List.mem_map.mp hg
    simp
  induction inputs generalizing byName with
  | nil => exact List.Pairwise.nil
  | cons i rest ih =>
    obtain ⟨n, source⟩ := i
    cases source with
    | none => exact List.Pairwise.cons (fun g hg _ => htrue rest g hg) (ih true)
    | some v =>
      refine List.Pairwise.cons (fun g hg hnamed => ?_) (ih byName)
      cases byName with
      | false => exact absurd rfl hnamed
      | true => exact htrue rest g hg

/-! ## What is bound -/

theorem bindByName_givenFor {inputs : List (String × Option String)}
    (h : (inputs.map Prod.fst).Nodup) :
    bindByName (inputs.map Prod.fst) (givenFor true inputs) =
      some (inputs.map (fun i => (i.1, i.2.getD "None"))) := by
  have honly : ∀ i ∈ inputs, onlyNamed? (givenFor true inputs) i.1 = some (i.2.getD "None") := by
    intro i hi
    have hfilter := filter_eq_singleton h hi
    have hsame : (fun j : String × Option String => some j.1 == some i.1) = (fun j => j.1 == i.1) := rfl
    rw [onlyNamed?, givenFor_true, List.filter_map]
    simp only [Function.comp_def, hsame, hfilter, List.map_cons, List.map_nil]
  rw [bindByName, if_pos (by simp [givenFor_true]), List.mapM_map]
  exact mapM_eq_some_map (fun i hi => by simp [honly i hi])

theorem bindPlain_named (parameters : List String) (n v : String) (given : List Given) :
    bindPlain parameters (⟨some n, v⟩ :: given) = bindByName parameters (⟨some n, v⟩ :: given) := by
  cases parameters <;> rfl

theorem bindPlain_unnamed (n : String) (parameters : List String) (v : String)
    (given : List Given) : bindPlain (n :: parameters) (⟨none, v⟩ :: given) =
      (bindPlain parameters given).map (fun values => (n, v) :: values) :=
  rfl

/-- The arguments for inputs of different names give each its source, and `None` where there is
none. -/
theorem bindPlain_givenFor {inputs : List (String × Option String)}
    (h : (inputs.map Prod.fst).Nodup) :
    bindPlain (inputs.map Prod.fst) (givenFor false inputs) =
      some (inputs.map (fun i => (i.1, i.2.getD "None"))) := by
  induction inputs with
  | nil => rfl
  | cons i rest ih =>
    obtain ⟨n, source⟩ := i
    cases source with
    | none =>
      -- from here on everything is given by name
      have hnamed := bindByName_givenFor h
      rw [givenFor] at hnamed ⊢
      rw [bindPlain_named, hnamed]
    | some v =>
      have hrest := ih (List.nodup_cons.mp h).2
      rw [givenFor, List.map_cons, if_neg Bool.false_ne_true, bindPlain_unnamed, hrest]
      rfl

/-! ## Reading arguments back -/

theorem isWordText_of_isIdentifier {s : String} (h : IsIdentifier s) :
    isWordText s.toList = true := by
  obtain ⟨c, cs, hcs, -⟩ := h.start
  simp only [isWordText, Bool.and_eq_true, List.all_eq_true]
  exact ⟨by simp [hcs], h.word⟩

theorem given?_text {g : Given} (h : g.Named) : given? g.text.toList = some g := by
  have hone : ∀ {s : String}, IsIdentifier s → cut '=' s.toList = [s.toList] :=
    fun hs => cut_of_free (hs.word.not_mem (by decide))
  have hvalue := isWordText_of_isIdentifier h.value
  obtain ⟨parameter, value⟩ := g
  cases parameter with
  | none => simp [given?, Given.text, hone h.value, hvalue]
  | some n =>
    have hn := h.parameter n rfl
    have htext : (n ++ "=" ++ value).toList = n.toList ++ '=' :: value.toList := by simp
    have hcut : cut '=' (n.toList ++ '=' :: value.toList) = [n.toList, value.toList] := by
      rw [cut_append_sep, hone hn, hone h.value]
      rfl
    simp only [given?, Given.text, htext, hcut, isWordText_of_isIdentifier hn, hvalue,
      Bool.and_self, if_true, String.ofList_toList]

/-- A text that is found again among commas, blanks and comments. -/
structure Solid (text : List Char) : Prop where
  ne_nil : text ≠ []
  apart : ∀ c ∈ text, isBlank c = false ∧ c ≠ ',' ∧ c ≠ '#'

/-- No blank is a word character. -/
theorem isBlank_of_isWordChar {c : Char} (h : isWordChar c = true) : isBlank c = false := by
  have hcode : ∀ a b : Char, a ≤ b ↔ a.toNat ≤ b.toNat := fun _ _ => Iff.rfl
  have hmark : c = '_' → c.toNat = 95 := by
    rintro rfl
    rfl
  simp only [isWordChar, Bool.or_eq_true, Bool.and_eq_true, decide_eq_true_eq, beq_iff_eq, hcode,
    show 'a'.toNat = 97 from rfl, show 'z'.toNat = 122 from rfl, show 'A'.toNat = 65 from rfl,
    show 'Z'.toNat = 90 from rfl, show '0'.toNat = 48 from rfl, show '9'.toNat = 57 from rfl] at h
  have hrange := h.imp_right hmark
  simp only [isBlank, Bool.or_eq_false_iff, Bool.and_eq_false_iff, decide_eq_false_iff_not,
    beq_eq_false_iff_ne]
  omega

theorem solid_of_isIdentifier {s : String} (h : IsIdentifier s) : Solid s.toList := by
  obtain ⟨d, ds, hds, -⟩ := h.start
  refine ⟨by simp [hds], fun c hc => ⟨isBlank_of_isWordChar (h.word c hc), ?_, ?_⟩⟩
  · exact ne_of_mem_of_not_mem hc (h.word.not_mem (by decide))
  · exact ne_of_mem_of_not_mem hc (h.word.not_mem (by decide))

theorem Given.solid_text {g : Given} (h : g.Named) : Solid g.text.toList := by
  have hvalue := solid_of_isIdentifier h.value
  unfold text
  split
  · exact hvalue
  · next n hn =>
    refine ⟨by simp, fun c hc => ?_⟩
    rw [String.toList_append, String.toList_append, List.mem_append, List.mem_append] at hc
    rcases hc with (hc | hc) | hc
    · exact (solid_of_isIdentifier (h.parameter n hn)).apart c hc
    · obtain rfl : c = '=' := by simpa using hc
      decide
    · exact hvalue.apart c hc

namespace Solid

variable {text lead : List Char}

theorem strip_append (h : Solid text) (hlead : ∀ c ∈ lead, isBlank c = true) :
    strip (lead ++ text) = text := by
  have hstrip := strip_append_of_free hlead h.ne_nil (fun c hc => (h.apart c hc).1) []
  simpa [dropEndWhile_of_all] using hstrip

theorem cut_append (h : Solid text) (hlead : ∀ c ∈ lead, isBlank c = true) :
    cut ',' (lead ++ text) = [lead ++ text] := by
  refine cut_of_free fun hmem => ?_
  rcases List.mem_append.mp hmem with hmem | hmem
  · exact absurd (hlead _ hmem) (by decide)
  · exact (h.apart _ hmem).2.1 rfl

/-- A text is the first piece up to the comma behind it. -/
theorem pieces_append_comma (h : Solid text) (hlead : ∀ c ∈ lead, isBlank c = true)
    (more : List Char) : (cut ',' (lead ++ (text ++ ',' :: more))).map strip =
      text :: (cut ',' more).map strip := by
  rw [← List.append_assoc, cut_append_sep, h.cut_append hlead, List.map_append, List.map_singleton,
    h.strip_append hlead, List.singleton_append]

end Solid

/-- Arguments with a comma between each two. -/
theorem argumentTexts_line {texts : List String} (h : ∀ t ∈ texts, Solid t.toList) :
    argumentTexts (String.intercalate ", " texts).toList = texts.map String.toList := by
  have hpieces : ∀ {texts : List String}, (∀ t ∈ texts, Solid t.toList) → texts ≠ [] →
      ∀ lead : List Char, (∀ c ∈ lead, isBlank c = true) →
      (cut ',' (lead ++ (String.intercalate ", " texts).toList)).map strip =
        texts.map String.toList := by
    intro texts
    induction texts with
    | nil => exact fun _ hne => absurd rfl hne
    | cons t rest ih =>
      intro hall _ lead hlead
      obtain ⟨ht, hrest⟩ := List.forall_mem_cons.mp hall
      by_cases hr : rest = []
      · simp [hr, ht.cut_append hlead, ht.strip_append hlead]
      · have hspace : ∀ c ∈ [' '], isBlank c = true := List.all_eq_true.mp (by decide)
        have htext : (String.intercalate ", " (t :: rest)).toList =
            t.toList ++ ',' :: ([' '] ++ (String.intercalate ", " rest).toList) := by
          rw [String.intercalate_cons_of_ne_nil hr]
          simp
        rw [htext, ht.pieces_append_comma hlead, ih hrest hr [' '] hspace, List.map_cons]
  by_cases hne : texts = []
  · subst hne
    decide
  · have hlast : (texts.map String.toList).getLast? ≠ some [] := by
      intro hlast
      obtain ⟨t, ht, hnil⟩ := List.mem_map.mp (List.mem_of_getLast? hlast)
      exact (h t ht).ne_nil hnil
    have htexts := hpieces h hne [] (by simp)
    rw [List.nil_append] at htexts
    simp only [argumentTexts, htexts, if_neg hlast]

/-- Arguments with a comma and perhaps blanks behind each, in a margin. -/
theorem argumentTexts_lines {args : List Argument} (h : ∀ a ∈ args, Solid a.text.toList)
    {margin : List Char} (hmargin : ∀ c ∈ margin, isBlank c = true) {trail : Argument → List Char}
    (htrail : ∀ a ∈ args, ∀ c ∈ trail a, isBlank c = true) {tail : List Char}
    (htail : ∀ c ∈ tail, isBlank c = true) :
    argumentTexts (args.flatMap (fun a => margin ++ (a.text.toList ++ ',' :: trail a)) ++ tail) =
      args.map (fun a => a.text.toList) := by
  have hpieces : ∀ {args : List Argument}, (∀ a ∈ args, Solid a.text.toList) →
      (∀ a ∈ args, ∀ c ∈ trail a, isBlank c = true) → ∀ lead : List Char,
      (∀ c ∈ lead, isBlank c = true) →
      (cut ',' (lead ++ (args.flatMap (fun a => margin ++ (a.text.toList ++ ',' :: trail a)) ++
        tail))).map strip = args.map (fun a => a.text.toList) ++ [[]] := by
    intro args
    induction args with
    | nil =>
      intro _ _ lead hlead
      have hblank : ∀ c ∈ lead ++ tail, isBlank c = true :=
        List.forall_mem_append.mpr ⟨hlead, htail⟩
      have hfree : ',' ∉ lead ++ tail := fun hmem => absurd (hblank _ hmem) (by decide)
      simp [cut_of_free hfree, strip_eq_nil hblank]
    | cons a rest ih =>
      intro hall hblank lead hlead
      obtain ⟨ha, hrest⟩ := List.forall_mem_cons.mp hall
      obtain ⟨htrail, hblank⟩ := List.forall_mem_cons.mp hblank
      have hmargins : ∀ c ∈ lead ++ margin, isBlank c = true :=
        List.forall_mem_append.mpr ⟨hlead, hmargin⟩
      have hpiece := ha.pieces_append_comma hmargins (trail a ++
        (rest.flatMap (fun a => margin ++ (a.text.toList ++ ',' :: trail a)) ++ tail))
      rw [ih hrest hblank (trail a) htrail] at hpiece
      simpa using hpiece
  have htexts := hpieces h htrail [] (by simp)
  rw [List.nil_append] at htexts
  simp [argumentTexts, htexts]

/-! ## Joining lines -/

/-- No line ends inside the text, and no comment starts in it. -/
def Uncommented (text : List Char) : Prop :=
  ∀ c ∈ text, isLineEnd c = false ∧ c ≠ '#'

instance (text : List Char) : Decidable (Uncommented text) :=
  List.decidableBAll _ text

/-- Text outside of comments stays. -/
theorem joinLines_append {text : List Char} (h : Uncommented text) (more : List Char) :
    joinLines false (text ++ more) = text ++ joinLines false more := by
  induction text with
  | nil => rfl
  | cons c text ih =>
    obtain ⟨hc, htext⟩ := List.forall_mem_cons.mp h
    simp [joinLines, hc.1, hc.2, ih htext]

/-- A comment goes up to the end of its line. -/
theorem joinLines_remark {text : List Char} (h : Unbroken text) (more : List Char) :
    joinLines true (text ++ '\n' :: more) = joinLines false ('\n' :: more) := by
  induction text with
  | nil => simp [joinLines, isLineEnd]
  | cons c text ih =>
    obtain ⟨hc, htext⟩ := List.forall_mem_cons.mp h
    simpa [joinLines, hc] using ih htext

theorem Solid.uncommented {text : List Char} (h : Solid text) : Uncommented text := by
  intro c hc
  obtain ⟨hblank, -, hremark⟩ := h.apart c hc
  refine ⟨?_, hremark⟩
  by_contra hend
  rw [Bool.not_eq_false] at hend
  rcases (by simpa [isLineEnd] using hend : c = '\n' ∨ c = '\r') with rfl | rfl
  · exact absurd hblank (by decide)
  · exact absurd hblank (by decide)

/-- What is left of a comment behind an argument. -/
def trailOf (a : Argument) : List Char :=
  if a.comment.isNone then [] else [' ', ' ']

theorem joinLines_argumentLine {a : Argument} (h : Solid a.text.toList)
    (hcomment : ∀ comment ∈ a.comment, Unbroken comment.toList) (more : List Char) :
    joinLines false ('\n' :: ((indent ++ argumentLine a).toList ++ '\n' :: more)) =
      (indent ++ indent).toList ++ (a.text.toList ++ ',' :: trailOf a) ++
        joinLines false ('\n' :: more) := by
  have hend : ∀ rest, joinLines false ('\n' :: rest) = joinLines false rest := fun rest => by
    simp [joinLines, isLineEnd]
  have hindent : Uncommented (indent ++ indent).toList := by decide
  rw [hend]
  cases hc : a.comment with
  | none =>
    have hline : (indent ++ argumentLine a).toList ++ '\n' :: more =
        (indent ++ indent).toList ++ (a.text.toList ++ ([','] ++ '\n' :: more)) := by
      simp [argumentLine, hc]
    rw [hline, joinLines_append hindent, joinLines_append h.uncommented, joinLines_append (by decide),
      trailOf, hc]
    simp
  | some comment =>
    have hline : (indent ++ argumentLine a).toList ++ '\n' :: more =
        (indent ++ indent).toList ++ (a.text.toList ++ ([',', ' ', ' '] ++
          '#' :: ((' ' :: comment.toList) ++ '\n' :: more))) := by
      simp [argumentLine, hc]
    have hremark : Unbroken (' ' :: comment.toList) :=
      List.forall_mem_cons.mpr ⟨by decide, hcomment comment hc⟩
    have hstart : ∀ rest, joinLines false ('#' :: rest) = joinLines true rest := fun rest => by
      simp [joinLines, isLineEnd]
    rw [hline, joinLines_append hindent, joinLines_append h.uncommented, joinLines_append (by decide),
      hstart, joinLines_remark hremark, trailOf, hc]
    simp

theorem joinLines_argumentLines {args : List Argument} (h : ∀ a ∈ args, Solid a.text.toList)
    (hcomments : ∀ a ∈ args, ∀ comment ∈ a.comment, Unbroken comment.toList) (more : List Char) :
    joinLines false (args.flatMap (fun a => '\n' :: (indent ++ argumentLine a).toList) ++
        '\n' :: more) =
      args.flatMap (fun a => (indent ++ indent).toList ++ (a.text.toList ++ ',' :: trailOf a)) ++
        joinLines false ('\n' :: more) := by
  induction args with
  | nil => rfl
  | cons a rest ih =>
    obtain ⟨ha, hrest⟩ := List.forall_mem_cons.mp h
    obtain ⟨hcomment, hcomments⟩ := List.forall_mem_cons.mp hcomments
    -- the lines that follow start with a line end
    obtain ⟨cs, hcs⟩ : ∃ cs, rest.flatMap (fun a => '\n' :: (indent ++ argumentLine a).toList) ++
        '\n' :: more = '\n' :: cs := by
      cases rest with
      | nil => exact ⟨more, rfl⟩
      | cons b rest => exact ⟨_, rfl⟩
    rw [List.flatMap_cons, List.append_assoc, hcs, List.cons_append,
      joinLines_argumentLine ha hcomment, ← hcs, ih hrest hcomments, List.flatMap_cons]
    simp only [List.append_assoc]

/-! ## Reading a call back -/

theorem mapM_given?_text {given : List Given} (h : ∀ g ∈ given, g.Named) :
    (given.map (fun g => g.text.toList)).mapM given? = some given := by
  have hread : given.mapM (given? ∘ fun g => g.text.toList) = some (given.map (fun g => g)) :=
    mapM_eq_some_map (fun g hg => given?_text (h g hg))
  rw [List.mapM_map, hread, List.map_id']

theorem readPlainCall_of_joined {function : String} (hf : IsIdentifier function)
    {text : List Char} (inside : List Char)
    (htext : joinLines false text = indent.toList ++ (function.toList ++ '(' :: (inside ++ [')'])))
    {given : List Given} (h : ∀ g ∈ given, g.Named)
    (hinside : argumentTexts inside = given.map (fun g => g.text.toList)) :
    readPlainCall text = some (function, given) := by
  obtain ⟨d, ds, hds, -⟩ := hf.start
  have hlast : (function.toList ++ '(' :: (inside ++ [')'])).getLast? = some ')' := by
    rw [← List.cons_append, ← List.append_assoc, List.getLast?_concat]
  have hstrip : strip (joinLines false text) = function.toList ++ '(' :: (inside ++ [')']) := by
    have hindent : ∀ c ∈ indent.toList, isBlank c = true := List.all_eq_true.mp (by decide)
    have hfirst : ∀ c ∈ (function.toList ++ '(' :: (inside ++ [')'])).head?, isBlank c = false := by
      intro c hc
      obtain rfl : d = c := by simpa [hds] using hc
      exact isBlank_of_isWordChar (hf.word d (by simp [hds]))
    have hend : ∀ c ∈ (function.toList ++ '(' :: (inside ++ [')'])).getLast?,
        isBlank c = false := by
      intro c hc
      obtain rfl : ')' = c := by simpa [hlast] using hc
      decide
    have hcall := Text.strip_append hindent (by simp) hfirst hend []
    rw [htext]
    simpa [dropEndWhile_of_all] using hcall
  have hdrop : (function.toList ++ '(' :: (inside ++ [')'])).dropWhile isWordChar =
      '(' :: (inside ++ [')']) := by
    rw [List.dropWhile_append_of_pos hf.word, List.dropWhile_cons_of_neg (by decide)]
  have htake : (function.toList ++ '(' :: (inside ++ [')'])).takeWhile isWordChar =
      function.toList := by
    rw [List.takeWhile_append_of_pos hf.word, List.takeWhile_cons_of_neg (by decide),
      List.append_nil]
  simp [readPlainCall, hstrip, hdrop, htake, hinside, mapM_given?_text h]

theorem joinLines_open {function : String} (hf : IsIdentifier function) (more : List Char) :
    joinLines false (indent.toList ++ (function.toList ++ '(' :: more)) =
      indent.toList ++ (function.toList ++ '(' :: joinLines false more) := by
  rw [joinLines_append (by decide), joinLines_append (solid_of_isIdentifier hf).uncommented]
  simp [joinLines, isLineEnd]

/-- Arguments on one line are neither broken nor commented. -/
theorem uncommented_intercalate {texts : List String} (h : ∀ t ∈ texts, Solid t.toList) :
    Uncommented (String.intercalate ", " texts).toList := by
  have hmissing : ∀ c, c ∉ ", ".toList → (isLineEnd c = true ∨ c = '#') →
      c ∉ (String.intercalate ", " texts).toList := by
    intro c hsep hc
    refine not_mem_intercalate hsep fun t ht hmem => ?_
    obtain ⟨hend, hremark⟩ := (h t ht).uncommented c hmem
    rcases hc with hc | hc
    · rw [hend] at hc
      cases hc
    · exact hremark hc
  have hunbroken : Unbroken (String.intercalate ", " texts).toList :=
    unbroken_iff.mpr ⟨hmissing _ (by decide) (by decide), hmissing _ (by decide) (by decide)⟩
  exact fun c hc =>
    ⟨hunbroken c hc, ne_of_mem_of_not_mem hc (hmissing _ (by decide) (by decide))⟩

/-- The function and the arguments are read back from the lines of a call as they stand in the
script. -/
theorem readPlainCall_callText {function : String} (hf : IsIdentifier function)
    {args : List Argument} {given : List Given}
    (htexts : args.map (·.text) = given.map Given.text) (h : ∀ g ∈ given, g.Named)
    (hcomments : ∀ a ∈ args, ∀ comment ∈ a.comment, Unbroken comment.toList) :
    readPlainCall (String.intercalate "\n" ((callText function args).map (indent ++ ·))).toList =
      some (function, given) := by
  have hsolid : ∀ a ∈ args, Solid a.text.toList := by
    intro a ha
    obtain ⟨g, hg, heq⟩ := List.mem_map.mp (htexts ▸ List.mem_map_of_mem ha)
    exact heq ▸ Given.solid_text (h g hg)
  have hlists : args.map (fun a => a.text.toList) = given.map (fun g => g.text.toList) := by
    simpa [Function.comp_def] using congrArg (List.map String.toList) htexts
  rw [callText_eq]
  split
  · -- all on one line
    have hline : ∀ t ∈ args.map (·.text), Solid t.toList := by simpa using hsolid
    refine readPlainCall_of_joined hf (String.intercalate ", " (args.map (·.text))).toList ?_ h ?_
    · have htext : (String.intercalate "\n"
          ([function ++ "(" ++ String.intercalate ", " (args.map (·.text)) ++ ")"].map
            (indent ++ ·))).toList = indent.toList ++ (function.toList ++
              '(' :: ((String.intercalate ", " (args.map (·.text))).toList ++ [')'])) := by simp
      rw [htext, joinLines_open hf, joinLines_append (uncommented_intercalate hline)]
      rfl
    · rw [argumentTexts_line hline, List.map_map]
      exact hlists
  · -- a line for each argument
    refine readPlainCall_of_joined hf (args.flatMap (fun a => (indent ++ indent).toList ++
      (a.text.toList ++ ',' :: trailOf a)) ++ indent.toList) ?_ h ?_
    · have htext : (String.intercalate "\n" (((function ++ "(") :: (args.map argumentLine ++
          [")"])).map (indent ++ ·))).toList = indent.toList ++ (function.toList ++ '(' ::
            (args.flatMap (fun a => '\n' :: (indent ++ argumentLine a).toList) ++
              '\n' :: (indent ++ ")").toList)) := by
        rw [List.map_cons, toList_intercalate_lines]
        simp [List.flatMap_map]
      rw [htext, joinLines_open hf, joinLines_argumentLines hsolid hcomments, List.append_assoc]
      rfl
    · rw [argumentTexts_lines hsolid (List.all_eq_true.mp (by decide)) ?_
        (List.all_eq_true.mp (by decide)), hlists]
      intro a _ c hc
      unfold trailOf at hc
      split at hc
      · cases hc
      · obtain rfl : c = ' ' := by simpa using hc
        decide

/-! ## Nodes with plain parameters -/

/-- The arguments for inputs with plain parameters. -/
theorem arguments_text_of_plain {inputs : List (Port × Option String)}
    (h : ∀ i ∈ inputs, IsIdentifier (Port.parameter i.1)) (byName : Bool) :
    (arguments byName inputs).map (·.text) =
      (givenFor byName (inputs.map (fun i => (Port.parameter i.1, i.2)))).map Given.text := by
  induction inputs generalizing byName with
  | nil => rfl
  | cons i rest ih =>
    obtain ⟨port, source⟩ := i
    obtain ⟨hport, hrest⟩ := List.forall_mem_cons.mp h
    obtain ⟨hslash, hstar, hstars⟩ := plain_of_isIdentifier hport
    simp only [arguments, beq_iff_eq, List.map_cons]
    rw [if_neg hslash, if_neg hstar, hstars, if_pos (by decide), sanitize_of_isWord hport.word]
    cases source with
    | none => simp [givenFor, Given.text, ih hrest, String.append_assoc]
    | some v => cases byName <;> simp [givenFor, Given.text, ih hrest]

/-- The finding for an input that is passed as `None`. -/
def openNote (n : Node) (port : Port) : Diagnostic :=
  { code := .unconnectedInput, severity := .info, nodeId := n.id
    message := "node " ++ quoted n.name ++ ": input " ++ quoted port.name
      ++ " is not connected and is passed as None" }

/-- With plain parameters, each input without a source is noted once, in order. -/
theorem inputNotes_of_plain {f : Flow} {p : Placed} (hp : p ∈ (Plan.ofFlow f).nodes)
    (hk : p.node.kind = .function) {function : String} (hcall : p.call? = some function)
    (h : ∀ port ∈ p.node.inputPorts, IsIdentifier (Port.parameter port)) :
    inputNotes f (Plan.ofFlow f).collected p =
      (p.node.inputPorts.filter (fun port =>
        (resolve? f (Plan.ofFlow f).collected p.node.id port.id).isNone)).map (openNote p.node) := by
  have hopen : ∀ port ∈ p.node.inputPorts,
      ((resolve? f (Plan.ofFlow f).collected p.node.id port.id).isNone &&
        Port.parameter port != "/" && (starsOf (Port.parameter port)).isEmpty) =
      (resolve? f (Plan.ofFlow f).collected p.node.id port.id).isNone := by
    intro port hport
    obtain ⟨hslash, -, hstars⟩ := plain_of_isIdentifier (h port hport)
    have hempty : "".isEmpty = true := by decide
    simp [hslash, hstars, hempty]
  simp only [inputNotes, hk, Plan.call_at hp hk, hcall, Option.getD_some, unconnected, wiredInputs,
    List.filter_map, List.map_map, Function.comp_def]
  rw [List.filter_congr hopen]
  rfl

/-- The findings about open inputs are the notes of the nodes, one node after the other. -/
theorem openInputs_compileAt (f : Flow) (stamp : String) :
    (f.compileAt stamp).diagnostics.filter (fun d => d.code = .unconnectedInput) =
      (Plan.ofFlow f).nodes.flatMap (inputNotes f (Plan.ofFlow f).collected) := by
  have hnotes : ((Plan.ofFlow f).nodes.flatMap (inputNotes f (Plan.ofFlow f).collected)).filter
      (fun d => d.code = .unconnectedInput) =
        (Plan.ofFlow f).nodes.flatMap (inputNotes f (Plan.ofFlow f).collected) := by
    rw [List.filter_eq_self]
    intro d hd
    obtain ⟨p, -, hnote⟩ := List.mem_flatMap.mp hd
    simpa using code_of_mem_inputNotes hnote
  rw [Flow.compileAt, List.filter_append, List.filter_append,
    ordering_filter_eq_nil f (by decide), gathering_filter_eq_nil f (by decide), hnotes,
    List.nil_append, List.nil_append]

end FlowScript.Script

namespace FlowScript

open Script

/-- The lines of a function node with code whose inputs stand for different parameters, without stars
and markers, are a call of its function with the targets in front. Without its comments and line
ends the call has a list of arguments of which none without a parameter follows one with a
parameter. They fill the parameters in the order of the ports: each that has a source with its
variable, and every other one with `None`. Just the inputs without a source are noted, each once. -/
theorem plain_call_fills_parameters (f : Flow) (stamp : String) {p : Placed}
    (hp : p ∈ (Plan.ofFlow f).nodes) (hk : p.node.kind = .function) {data : FunctionData}
    (hdata : p.node.function? = some data) (hcode : isBlankText data.code = false)
    (hports : ∀ port ∈ p.node.inputPorts, IsIdentifier (Port.parameter port))
    (hapart : (p.node.inputPorts.map Port.parameter).Nodup) :
    ∃ function call given,
      p.call? = some function ∧
      (bodyLines f (Plan.ofFlow f).collected p).map indented =
        (assigned (Plan.targets f p) call).map (indent ++ ·) ∧
      readPlainCall (String.intercalate "\n" (call.map (indent ++ ·))).toList =
        some (function, given) ∧
      given.Pairwise (fun a b => a.parameter ≠ none → b.parameter ≠ none) ∧
      bindPlain (p.node.inputPorts.map Port.parameter) given =
        some (p.node.inputPorts.map (fun port => (Port.parameter port,
          (resolve? f (Plan.ofFlow f).collected p.node.id port.id).getD "None"))) ∧
      inputNotes f (Plan.ofFlow f).collected p =
        (p.node.inputPorts.filter (fun port =>
          (resolve? f (Plan.ofFlow f).collected p.node.id port.id).isNone)).map
            (openNote p.node) ∧
      (f.compileAt stamp).diagnostics.filter (fun d => d.code = .unconnectedInput) =
        (Plan.ofFlow f).nodes.flatMap (inputNotes f (Plan.ofFlow f).collected) := by
  obtain ⟨function, hcall⟩ : ∃ function, p.call? = some function := by
    simp [Placed.call?, hdata, hcode]
  let inputs := p.node.inputPorts.map (fun port =>
    (Port.parameter port, resolve? f (Plan.ofFlow f).collected p.node.id port.id))
  have hgiven : ∀ g ∈ givenFor false inputs, g.Named := by
    refine named_of_mem_givenFor fun i hi => ?_
    obtain ⟨port, hport, rfl⟩ := List.mem_map.mp hi
    exact ⟨hports port hport, fun v hv => Plan.isIdentifier_of_resolve? hv⟩
  have htexts : (arguments false (wiredInputs f (Plan.ofFlow f).collected p.node)).map (·.text) =
      (givenFor false inputs).map Given.text := by
    rw [arguments_text_of_plain (by simpa [wiredInputs] using hports), wiredInputs, List.map_map]
    rfl
  have hcomments : ∀ a ∈ arguments false (wiredInputs f (Plan.ofFlow f).collected p.node),
      ∀ comment ∈ a.comment, Unbroken comment.toList := fun a ha comment hcomment =>
    unbroken_iff.mpr ⟨blank_not_mem_comment (by decide) (by decide) ha comment hcomment,
      blank_not_mem_comment (by decide) (by decide) ha comment hcomment⟩
  have hfst : inputs.map Prod.fst = p.node.inputPorts.map Port.parameter := by simp [inputs]
  refine ⟨function, callText function (arguments false (wiredInputs f (Plan.ofFlow f).collected
    p.node)), givenFor false inputs, hcall, ?_, ?_, givenFor_pairwise false inputs, ?_,
    inputNotes_of_plain hp hk hcall hports, openInputs_compileAt f stamp⟩
  · rw [← Plan.bodyLines_of_call hp hk hcall]
    exact List.map_congr_left fun line hline =>
      indented_of_unbroken (unbroken_of_mem_bodyLines hp line hline)
        (ne_empty_of_mem_bodyLines line hline)
  · exact readPlainCall_callText (Placed.isIdentifier_of_call? (Plan.isWord_name hp) hcall) htexts
      hgiven hcomments
  · have hbind := bindPlain_givenFor (hfst ▸ hapart)
    rw [hfst] at hbind
    rw [hbind]
    simp [inputs]

/-- A call with an open input between two wired ones. The names of the inputs are not those of the
parameters, and one of them looks like the end of the call. -/
def gappedNode : Node :=
  { id := "n", kind := .function, name := "n"
    inputs := [some { id := "p", name := "p", sourceName := "a" },
      some { id := "q", name := ") # q\n)", sourceName := "class" },
      some { id := "r", name := "r", sourceName := "_c" }]
    payload := some (.function { code := "def f(a, class, _c):\n    pass" }) }

def gappedFlow : Flow :=
  { nodes := [some tableNode, some gappedNode]
    connections := [some ⟨"1", "t", "t.o", "n", "p"⟩, some ⟨"2", "t", "t.o", "n", "r"⟩] }

def gappedCall : Placed :=
  ⟨1, "n", gappedNode⟩

/-- The comment of the open input stays on its line, and the call gives `None` to the parameter. -/
theorem gappedFlow_fills_parameters :
    gappedCall ∈ (Plan.ofFlow gappedFlow).nodes ∧ gappedCall.node.kind = .function ∧
    gappedCall.node.function? = some { code := "def f(a, class, _c):\n    pass" } ∧
    isBlankText "def f(a, class, _c):\n    pass" = false ∧
    (∀ port ∈ gappedCall.node.inputPorts, IsIdentifier (Port.parameter port)) ∧
    (gappedCall.node.inputPorts.map Port.parameter).Nodup ∧
    bodyLines gappedFlow (Plan.ofFlow gappedFlow).collected gappedCall =
      ["f(", "    df_t,", "    class=None,  # TODO: provide a value for input ') # q )'",
        "    _c=df_t,", ")"] ∧
    ∃ (call : List String) (given : List Given),
      (bodyLines gappedFlow (Plan.ofFlow gappedFlow).collected gappedCall).map indented =
        call.map (indent ++ ·) ∧
      readPlainCall (String.intercalate "\n" (call.map (indent ++ ·))).toList = some ("f", given) ∧
      given.Pairwise (fun a b => a.parameter ≠ none → b.parameter ≠ none) ∧
      bindPlain ["a", "class", "_c"] given =
        some [("a", "df_t"), ("class", "None"), ("_c", "df_t")] ∧
      ((gappedFlow.compileAt "").diagnostics.filter
        (fun d => d.code = .unconnectedInput)).map (·.message) =
          ["node \"n\": input \") # q\\n)\" is not connected and is passed as None"] := by
  have hp : gappedCall ∈ (Plan.ofFlow gappedFlow).nodes := List.mem_of_getElem? (i := 1) rfl
  have hcode : isBlankText "def f(a, class, _c):\n    pass" = false := by decide +kernel
  have hports : ∀ port ∈ gappedCall.node.inputPorts, IsIdentifier (Port.parameter port) := by
    have hnames : gappedCall.node.inputPorts.map Port.parameter = ["a", "class", "_c"] := by
      decide +kernel
    have hword : ∀ n ∈ ["a", "class", "_c"], IsWord n := by
      simp only [List.forall_mem_cons, IsWord]
      exact ⟨List.all_eq_true.mp (by decide), List.all_eq_true.mp (by decide),
        List.all_eq_true.mp (by decide), by simp⟩
    intro port hport
    have hmem : Port.parameter port ∈ ["a", "class", "_c"] :=
      hnames ▸ List.mem_map_of_mem hport
    refine ⟨hword _ hmem, ?_⟩
    rcases (by simpa using hmem : Port.parameter port = "a" ∨ Port.parameter port = "class" ∨
      Port.parameter port = "_c") with h | h | h
    · exact ⟨'a', [], by rw [h]; rfl, by decide⟩
    · exact ⟨'c', "lass".toList, by rw [h]; rfl, by decide⟩
    · exact ⟨'_', ['c'], by rw [h]; rfl, by decide⟩
  have hapart : (gappedCall.node.inputPorts.map Port.parameter).Nodup := by decide
  have htargets : Plan.targets gappedFlow gappedCall = [] := by decide +kernel
  have hfunction : gappedCall.call? = some "f" := by decide +kernel
  obtain ⟨function, call, given, hcall, hlines, hread, hordered, hbind, -, hnotes⟩ :=
    plain_call_fills_parameters gappedFlow "" hp rfl rfl hcode hports hapart
  obtain rfl : function = "f" := Option.some.inj (hcall.symm.trans hfunction)
  refine ⟨hp, rfl, rfl, hcode, hports, hapart, by decide +kernel, call, given, ?_, hread, hordered,
    hbind.trans (by decide +kernel), ?_⟩
  · rw [hlines, htargets]
    cases call <;> rfl
  · rw [hnotes]
    decide +kernel

end FlowScript
