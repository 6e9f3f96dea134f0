import FlowScript.Proofs.Script.Banner
import FlowScript.Proofs.Script.PlainCalls
import FlowScript.Proofs.Script.Supplies
import FlowScript.Run.Packages

/-!
# Modules of import statements

The packages that a script needs are found in its import lines, which are cut at commas and spaces. A
line may end in a comment, and the comment is cut in the same way: what stands behind a comma of it
counts as one more module, and a comment that follows a name without a space as a part of the name.

Import statements are put together here from their parts: dotted names, new names for modules, spaces
and comments.

## Main definitions

- `ImportStatement` — an import statement with its layout
- `ImportStatement.tops` — the outermost modules that a statement names
- `ImportStatement.Clear` — the comment leaves the modules alone

## Main results

- `ImportStatement.modulesOfLine_line_iff` — a line names the modules of its statement exactly when the
  comment is clear
- `imported_modules_iff` — the modules and the packages of a list of statements
-/

namespace FlowScript

open Text
open Script (isBlank_of_isWordChar addNew foldl_addNew)

/-! ## Pieces of a text and blanks -/

namespace Text

theorem strip_append_blanks {blanks : List Char} (h : ∀ c ∈ blanks, isBlank c = true)
    (cs : List Char) : strip (cs ++ blanks) = strip cs := by
  rw [strip, strip, stripWhile, stripWhile, List.dropWhile_append]
  split
  · next hempty =>
    rw [List.isEmpty_iff.mp hempty, List.dropWhile_eq_nil_iff.mpr h]
  · rw [dropEndWhile_append_eq, if_pos (dropEndWhile_of_all h)]

theorem isBlank_of_mem_head?_strip {cs : List Char} {c : Char} (h : c ∈ (strip cs).head?) :
    isBlank c = false := by
  obtain ⟨back, hback, -⟩ := exists_eq_dropEndWhile_append isBlank (cs.dropWhile isBlank)
  have hhead : (cs.dropWhile isBlank).head? = some c := by
    rw [hback, List.head?_append, show dropEndWhile isBlank (cs.dropWhile isBlank) = strip cs from rfl,
      Option.mem_def.mp h, Option.some_or]
  exact not_of_mem_head?_dropWhile hhead

/-- A back without separators is part of the last piece. -/
theorem cut_append_of_free {sep : Char} {back : List Char} (h : sep ∉ back) (cs : List Char) :
    ∃ pieces last, cut sep cs = pieces ++ [last] ∧ cut sep (cs ++ back) = pieces ++ [last ++ back] := by
  obtain ⟨pieces, last, hcut⟩ : ∃ pieces last, cut sep cs = pieces ++ [last] :=
    ⟨_, _, (List.dropLast_concat_getLast (cutWhere_ne_nil (· == sep) cs)).symm⟩
  refine ⟨pieces, last, hcut, ?_⟩
  have hfree : ∀ piece ∈ cut sep cs, sep ∉ piece := by
    intro piece hpiece hmem
    simpa using cutWhere_free hpiece sep hmem
  rw [hcut, List.forall_mem_append] at hfree
  have hlast : cut sep (last ++ back) = [last ++ back] :=
    cut_of_free (fun hmem => (List.mem_append.mp hmem).elim (hfree.2 last (by simp)) h)
  have hglue : glue [sep] (pieces ++ [last]) = cs := hcut ▸ glue_cut sep cs
  by_cases hne : pieces = []
  · subst hne
    rw [← hglue]
    exact hlast
  · rw [← hglue, glue_concat [sep] hne, List.append_assoc, List.append_assoc, List.singleton_append,
      cut_append_sep, cut_glue hne hfree.1, hlast]

/-- Blanks at the end of a text do not change its pieces, up to the blanks around them. -/
theorem map_strip_cut_dropEndWhile {sep : Char} (h : isBlank sep = false) (cs : List Char) :
    (cut sep (dropEndWhile isBlank cs)).map strip = (cut sep cs).map strip := by
  obtain ⟨back, hcs, hback⟩ := exists_eq_dropEndWhile_append isBlank cs
  have hfree : sep ∉ back := by
    intro hmem
    rw [hback sep hmem] at h
    cases h
  obtain ⟨pieces, last, hfront, hwhole⟩ := cut_append_of_free hfree (dropEndWhile isBlank cs)
  rw [← hcs] at hwhole
  rw [hfront, hwhole, List.map_append, List.map_append, List.map_singleton, List.map_singleton,
    strip_append_blanks hback]

/-- Pieces without separators in front of a last one. -/
theorem cut_glue_concat {sep : Char} {pieces : List (List Char)}
    (hfree : ∀ piece ∈ pieces, sep ∉ piece) (last : List Char) :
    cut sep (glue [sep] (pieces ++ [last])) = pieces ++ cut sep last := by
  by_cases hne : pieces = []
  · subst hne
    rfl
  · rw [glue_concat [sep] hne, List.append_assoc, List.singleton_append, cut_append_sep,
      cut_glue hne hfree]

/-- A word in front of a space is the first word. -/
theorem wordsOf_append_space {word : List Char} (hne : word ≠ [])
    (h : ∀ c ∈ word, isBlank c = false) (more : List Char) :
    wordsOf (word ++ ' ' :: more) = word :: wordsOf more := by
  rw [wordsOf, cutWhere_append_sep (by rfl), cutWhere_of_free h, List.singleton_append,
    List.filter_cons_of_pos (by simpa using hne), wordsOf]

end Text

/-! ## Import statements -/

/-- Spaces of a source line. -/
def blanks (n : Nat) : List Char :=
  List.replicate n ' '

theorem isBlank_of_mem_blanks {n : Nat} {c : Char} (h : c ∈ blanks n) : isBlank c = true := by
  rw [List.eq_of_mem_replicate h]
  rfl

theorem blanks_succ (n : Nat) : blanks (n + 1) = ' ' :: blanks n :=
  rfl

theorem wordsOf_blanks_append (n : Nat) (cs : List Char) :
    wordsOf (blanks n ++ cs) = wordsOf cs := by
  induction n with
  | zero => rfl
  | succ n ih =>
    rw [blanks_succ, List.cons_append, wordsOf, cutWhere_cons_sep (by rfl), ← ih]
    rfl

theorem isIdentifier_iff (s : String) : IsIdentifier s ↔
    s.toList.head?.any Source.isIdentStart = true ∧ s.toList.all isWordChar = true := by
  constructor
  · rintro ⟨hword, c, cs, hcs, hstart⟩
    exact ⟨by simpa [hcs] using hstart, List.all_eq_true.mpr hword⟩
  · rintro ⟨hstart, hword⟩
    refine ⟨List.all_eq_true.mp hword, ?_⟩
    cases hs : s.toList with
    | nil => simp [hs] at hstart
    | cons c cs => exact ⟨c, cs, rfl, by simpa [hs] using hstart⟩

instance (s : String) : Decidable (IsIdentifier s) :=
  decidable_of_iff _ (isIdentifier_iff s).symm

/-- A module by its name, with the modules around it. -/
structure DottedName where
  top : String
  inner : List String := []
  valid : ∀ part ∈ top :: inner, IsIdentifier part := by decide

namespace DottedName

def text (n : DottedName) : List Char :=
  n.top.toList ++ n.inner.flatMap fun part => '.' :: part.toList

end DottedName

/-- Another name for a module; one space at least stands around the word `as`. -/
structure Renaming where
  before : Nat := 0
  after : Nat := 0
  name : String
  valid : IsIdentifier name := by decide

def Renaming.text (r : Renaming) : List Char :=
  blanks (r.before + 1) ++ ("as".toList ++ (blanks (r.after + 1) ++ r.name.toList))

/-- One of the modules between the commas of a statement. -/
structure ImportedName where
  lead : Nat := 0
  name : DottedName
  newName : Option Renaming := none
  trail : Nat := 0

namespace ImportedName

/-- What stands behind the name of the module. -/
def rest (m : ImportedName) : List Char :=
  (m.newName.map Renaming.text).getD [] ++ blanks m.trail

def text (m : ImportedName) : List Char :=
  blanks m.lead ++ (m.name.text ++ m.rest)

end ImportedName

/-- Where a statement takes names from. -/
inductive Origin
  | absolute (name : DottedName)
  /-- One more dot than the number says. -/
  | relative (dots : Nat) (name : Option DottedName)

namespace Origin

def text : Origin → List Char
  | .absolute name => name.text
  | .relative dots name => List.replicate (dots + 1) '.' ++ (name.map DottedName.text).getD []

/-- The outermost module; relative ones have none. -/
def module? : Origin → Option String
  | .absolute name => some name.top
  | .relative _ _ => none

end Origin

/-- An import statement on a line of its own. -/
inductive ImportStatement
  /-- Modules, the last one apart, and the comment behind them. -/
  | modules (indent : Nat) (init : List ImportedName) (last : ImportedName)
      (comment : Option String)
  /-- Names of one module. All that stands behind the word `import` is one text. -/
  | names (indent before : Nat) (origin : Origin) (after : Nat) (text : String)

namespace ImportStatement

/-- A comment with its mark. -/
def remark (comment : Option String) : List Char :=
  (comment.map fun text => '#' :: text.toList).getD []

/-- What stands behind the word `import` and one space. -/
def imported (init : List ImportedName) (last : ImportedName) (comment : Option String) :
    List Char :=
  glue [','] (init.map ImportedName.text ++ [last.text ++ remark comment])

/-- The words from `from` to `import`. -/
def opening (before : Nat) (origin : Origin) (after : Nat) : List Char :=
  "from".toList ++ (blanks (before + 1) ++ (origin.text ++ (blanks (after + 1) ++ "import".toList)))

/-- The source line of a statement. -/
def line : ImportStatement → String
  | .modules indent init last comment =>
    String.ofList (blanks indent ++ ("import ".toList ++ imported init last comment))
  | .names indent before origin after text =>
    String.ofList (blanks indent ++ (opening before origin after ++ text.toList))

/-- The outermost modules that a statement names. -/
def tops : ImportStatement → List String
  | .modules _ init last _ => (init ++ [last]).map fun m => m.name.top
  | .names _ _ origin _ _ => origin.module?.toList

/-- A comment leaves the modules of its statement alone: it does not touch the last name, or only
behind a dot, and between two of its commas and behind the last one it is blank or starts with a
dot. -/
def Clear : ImportStatement → Prop
  | .modules _ _ last (some comment) =>
    (last.rest ≠ [] ∨ last.name.inner ≠ []) ∧
      ∀ piece ∈ (cut ',' comment.toList).tail, ∀ c ∈ (strip piece).head?, c = '.'
  | _ => True

end ImportStatement

/-! ## Names in the text -/

namespace DottedName

variable (n : DottedName)

/-- A dotted name holds word characters and dots. -/
theorem mem_text {c : Char} (h : c ∈ n.text) : isWordChar c = true ∨ c = '.' := by
  rcases List.mem_append.mp h with h | h
  · exact .inl ((n.valid n.top List.mem_cons_self).word c h)
  · obtain ⟨part, hpart, h⟩ := List.mem_flatMap.mp h
    rcases List.mem_cons.mp h with rfl | h
    · exact .inr rfl
    · exact .inl ((n.valid part (List.mem_cons_of_mem _ hpart)).word c h)

theorem isBlank_of_mem_text {c : Char} (h : c ∈ n.text) : isBlank c = false := by
  rcases n.mem_text h with h | rfl
  · exact isBlank_of_isWordChar h
  · rfl

theorem not_mem_text {c : Char} (hword : isWordChar c = false) (hdot : c ≠ '.') : c ∉ n.text := by
  intro h
  rcases n.mem_text h with h | h
  · rw [h] at hword
    cases hword
  · exact hdot h

theorem top_ne_nil : n.top.toList ≠ [] := by
  obtain ⟨c, cs, hcs, -⟩ := (n.valid n.top List.mem_cons_self).start
  simp [hcs]

theorem text_ne_nil : n.text ≠ [] := by
  simp [text, n.top_ne_nil]

/-- A text that starts with a dotted name is cut at the first dot. -/
theorem topModule?_text_append (more : List Char) :
    topModule? (n.text ++ more) =
      some (if n.inner = [] then
          n.top ++ String.ofList ((dropEndWhile isBlank more).takeWhile (· != '.'))
        else n.top) := by
  have hstrip : strip (n.text ++ more) = n.text ++ dropEndWhile isBlank more :=
    strip_append_of_free (List.forall_mem_nil _) n.text_ne_nil (fun _ => n.isBlank_of_mem_text) more
  have hdot : '.' ∉ n.top.toList := (n.valid n.top List.mem_cons_self).word.not_mem (by decide)
  have htake : (n.text ++ dropEndWhile isBlank more).takeWhile (· != '.') =
      n.top.toList ++ (if n.inner = [] then (dropEndWhile isBlank more).takeWhile (· != '.')
        else []) := by
    rw [text, List.append_assoc, List.takeWhile_append_of_pos (bne_of_not_mem hdot)]
    cases n.inner with
    | nil => rfl
    | cons part inner => simp
  unfold topModule?
  rw [hstrip, htake]
  have hne := n.top_ne_nil
  split <;> simp [hne, String.ofList_append]

end DottedName

/-! ## Modules between commas -/

/-- The module of a piece between commas. -/
def moduleOfPiece? (piece : List Char) : Option String :=
  topModule? ((strip piece).takeWhile (· != ' '))

/-- Only a blank piece and one that starts with a dot name no module. -/
theorem moduleOfPiece?_eq_none_iff (piece : List Char) :
    moduleOfPiece? piece = none ↔ ∀ c ∈ (strip piece).head?, c = '.' := by
  cases hpiece : strip piece with
  | nil => simp [moduleOfPiece?, hpiece, topModule?, strip_eq_nil]
  | cons c cs =>
    -- the first character is no blank, so neither the space nor the strip takes it away
    have hc : isBlank c = false := isBlank_of_mem_head?_strip (by rw [hpiece]; rfl)
    have hspace : (c != ' ') = true := by
      rw [bne_iff_ne]
      rintro rfl
      cases hc
    have hstrip : strip (c :: cs.takeWhile (· != ' ')) =
        c :: dropEndWhile isBlank (cs.takeWhile (· != ' ')) :=
      strip_append_of_free (List.forall_mem_nil _) (List.cons_ne_nil c []) (by simp [hc]) _
    rw [moduleOfPiece?, hpiece, List.takeWhile_cons, if_pos hspace, topModule?, hstrip]
    by_cases hdot : c = '.'
    · simp [hdot]
    · simp [hdot]

/-- Behind a space nothing is left of a piece. -/
theorem takeWhile_dropEndWhile_space (cs : List Char) :
    (dropEndWhile isBlank (' ' :: cs)).takeWhile (· != ' ') = [] := by
  rw [← List.singleton_append, dropEndWhile_append_eq]
  split
  · rw [dropEndWhile_of_all (by simp [isBlank])]
    rfl
  · rfl

namespace ImportedName

variable (m : ImportedName)

/-- Behind the name of a module there is nothing or a space. -/
theorem rest_cases : m.rest = [] ∨ ∃ more, m.rest = ' ' :: more := by
  unfold rest
  cases m.newName with
  | some r => exact .inr ⟨_, rfl⟩
  | none =>
    cases m.trail with
    | zero => exact .inl rfl
    | succ n => exact .inr ⟨_, rfl⟩

theorem moduleOfPiece?_text_append (more : List Char) :
    moduleOfPiece? (m.text ++ more) =
      topModule? (m.name.text ++ (dropEndWhile isBlank (m.rest ++ more)).takeWhile (· != ' ')) := by
  have hstrip : strip (m.text ++ more) = m.name.text ++ dropEndWhile isBlank (m.rest ++ more) := by
    rw [text, List.append_assoc, List.append_assoc]
    exact strip_append_of_free (fun _ => isBlank_of_mem_blanks) m.name.text_ne_nil
      (fun _ => m.name.isBlank_of_mem_text) (m.rest ++ more)
  have hspace : ' ' ∉ m.name.text := m.name.not_mem_text (by decide) (by decide)
  rw [moduleOfPiece?, hstrip, List.takeWhile_append_of_pos (bne_of_not_mem hspace)]

theorem moduleOfPiece?_text : moduleOfPiece? m.text = some m.name.top := by
  have hnil : (dropEndWhile isBlank m.rest).takeWhile (· != ' ') = [] := by
    rcases m.rest_cases with h | ⟨more, h⟩ <;> rw [h]
    · rfl
    · exact takeWhile_dropEndWhile_space more
  have h := m.moduleOfPiece?_text_append []
  rw [List.append_nil, List.append_nil, hnil, m.name.topModule?_text_append] at h
  simpa [dropEndWhile_of_all] using h

theorem filterMap_text (names : List ImportedName) :
    (names.map text).filterMap moduleOfPiece? = names.map fun m => m.name.top := by
  induction names with
  | nil => rfl
  | cons m rest ih =>
    rw [List.map_cons, List.filterMap_cons_some m.moduleOfPiece?_text, ih, List.map_cons]

/-- A comment keeps the name in front of it apart when a space or a dot stands between them. -/
theorem moduleOfPiece?_text_remark (piece : List Char) :
    ∃ top, moduleOfPiece? (m.text ++ '#' :: piece) = some top ∧
      (top = m.name.top ↔ m.rest ≠ [] ∨ m.name.inner ≠ []) := by
  rw [m.moduleOfPiece?_text_append, m.name.topModule?_text_append]
  refine ⟨_, rfl, ?_⟩
  rcases m.rest_cases with h | ⟨more, h⟩
  · have hmark (cs : List Char) : dropEndWhile isBlank ('#' :: cs) = '#' :: dropEndWhile isBlank cs :=
      dropEndWhile_append (by simp [isBlank] : ∀ c ∈ ['#'].getLast?, isBlank c = false) cs
    rw [h, List.nil_append, hmark, List.takeWhile_cons_of_pos (by rfl), hmark,
      List.takeWhile_cons_of_pos (by rfl)]
    by_cases hinner : m.name.inner = []
    · simp [hinner, ← String.toList_inj]
    · simp [hinner]
  · rw [h, List.cons_append, takeWhile_dropEndWhile_space]
    simp [dropEndWhile_of_all]

end ImportedName

/-! ## Modules of a line -/

theorem modulesOfLine_of_import {line : String} {names : List Char}
    (h : strip line.toList = "import ".toList ++ names) :
    modulesOfLine line = (cut ',' names).filterMap moduleOfPiece? := by
  rw [modulesOfLine, h, Source.dropFront?_eq_some_iff.mpr rfl]
  rfl

theorem modulesOfLine_of_from {line : String} {names : List Char}
    (h : strip line.toList = "from ".toList ++ names) {first name : List Char}
    {more : List (List Char)} (hwords : wordsOf (strip line.toList) = first :: name :: more) :
    modulesOfLine line = if name.head? == some '.' then [] else (topModule? name).toList := by
  have himport : dropFront? "import ".toList (strip line.toList) = none := by
    rw [h]
    rfl
  have hfrom : startsWith "from ".toList (strip line.toList) = true := by
    rw [h]
    rfl
  simp only [modulesOfLine, himport, hfrom, hwords, if_true]

/-- The pieces of an import line are those of what stands behind the word: the blanks at its end do
not matter. -/
theorem modulesOfLine_import (indent : Nat) {names : List Char}
    (h : ∃ c ∈ names, isBlank c = false) :
    modulesOfLine (String.ofList (blanks indent ++ ("import ".toList ++ names))) =
      (cut ',' names).filterMap moduleOfPiece? := by
  have hsolid : dropEndWhile isBlank names ≠ [] := by
    intro hnil
    obtain ⟨c, hc, hblank⟩ := h
    obtain ⟨back, hback, hall⟩ := exists_eq_dropEndWhile_append isBlank names
    rw [hnil, List.nil_append] at hback
    rw [hall c (hback ▸ hc)] at hblank
    cases hblank
  have hstrip : strip (String.ofList (blanks indent ++ ("import ".toList ++ names))).toList =
      "import ".toList ++ dropEndWhile isBlank names := by
    have hword := strip_append (fun _ => isBlank_of_mem_blanks (n := indent))
      (by simp : "import".toList ≠ []) (by simp [isBlank]) (by simp [isBlank]) (' ' :: names)
    rw [← List.singleton_append, dropEndWhile_append_eq, if_neg hsolid] at hword
    simpa using hword
  have hmodules (pieces : List (List Char)) : pieces.filterMap moduleOfPiece? =
      (pieces.map strip).filterMap fun piece => topModule? (piece.takeWhile (· != ' ')) := by
    rw [List.filterMap_map]
    rfl
  rw [modulesOfLine_of_import hstrip, hmodules, map_strip_cut_dropEndWhile (by rfl), ← hmodules]

namespace ImportedName

variable (m : ImportedName)

theorem comma_not_mem_text : ',' ∉ m.text := by
  have hblanks (n : Nat) : ',' ∉ blanks n := by
    intro h
    cases isBlank_of_mem_blanks h
  have hname : ',' ∉ m.name.text := m.name.not_mem_text (by decide) (by decide)
  have hnew : ',' ∉ (m.newName.map Renaming.text).getD [] := by
    cases m.newName with
    | none => exact List.not_mem_nil
    | some r =>
      have hword : ',' ∉ r.name.toList := r.valid.word.not_mem (by decide)
      simp [Renaming.text, hblanks, hword]
  simp [text, rest, hblanks, hname, hnew]

end ImportedName

namespace Origin

theorem text_ne_nil (origin : Origin) : origin.text ≠ [] := by
  cases origin with
  | absolute name => exact name.text_ne_nil
  | relative dots name => simp [text]

theorem isBlank_of_mem_text {origin : Origin} {c : Char} (h : c ∈ origin.text) :
    isBlank c = false := by
  cases origin with
  | absolute name => exact name.isBlank_of_mem_text h
  | relative dots name =>
    rcases List.mem_append.mp h with h | h
    · rw [List.eq_of_mem_replicate h]
      rfl
    · cases name with
      | none => cases h
      | some name => exact name.isBlank_of_mem_text h

/-- A module in front of the word `import` is found unless a dot is in front of it. -/
theorem module?_toList (origin : Origin) :
    (if origin.text.head? == some '.' then [] else (topModule? origin.text).toList) =
      origin.module?.toList := by
  cases origin with
  | relative dots name => rfl
  | absolute name =>
    obtain ⟨c, cs, hcs⟩ := List.exists_cons_of_ne_nil name.top_ne_nil
    have hc : c ≠ '.' := by
      have hfree := (name.valid name.top List.mem_cons_self).word.not_mem (c := '.') (by decide)
      rintro rfl
      exact hfree (hcs ▸ List.mem_cons_self)
    have hhead : (Origin.absolute name).text.head? = some c := by
      simp [text, DottedName.text, hcs]
    have htop := name.topModule?_text_append []
    rw [List.append_nil] at htop
    rw [hhead, if_neg (by simpa using hc), text, htop, dropEndWhile_of_all (by simp)]
    simp [module?]

end Origin

namespace ImportStatement

/-- All names but the last one stand between commas; the comment goes with the last one. -/
theorem modulesOfLine_modules (indent : Nat) (init : List ImportedName) (last : ImportedName)
    (comment : Option String) :
    modulesOfLine (modules indent init last comment).line =
      init.map (fun m => m.name.top) ++
        (cut ',' (last.text ++ remark comment)).filterMap moduleOfPiece? := by
  have hsolid : ∃ c ∈ imported init last comment, isBlank c = false := by
    obtain ⟨c, cs, hname⟩ := List.exists_cons_of_ne_nil last.name.text_ne_nil
    have hc : c ∈ last.name.text := hname ▸ List.mem_cons_self
    refine ⟨c, mem_glue_of_mem (List.mem_append_right _ (List.mem_singleton_self _)) ?_,
      last.name.isBlank_of_mem_text hc⟩
    simp [ImportedName.text, hc]
  have hfree : ∀ piece ∈ init.map ImportedName.text, ',' ∉ piece := by
    rw [List.forall_mem_map]
    exact fun m _ => m.comma_not_mem_text
  rw [line, modulesOfLine_import indent hsolid, imported, cut_glue_concat hfree,
    List.filterMap_append, ImportedName.filterMap_text]

theorem modulesOfLine_names (indent before : Nat) (origin : Origin) (after : Nat) (text : String) :
    modulesOfLine (names indent before origin after text).line = origin.module?.toList := by
  have hstrip : strip (names indent before origin after text).line.toList =
      opening before origin after ++ dropEndWhile isBlank text.toList := by
    have hlast : (opening before origin after).getLast? = some 't' := by
      have himport : "import".toList.getLast? = some 't' := rfl
      simp only [opening, List.getLast?_append, himport, Option.some_or]
    rw [line, String.toList_ofList]
    exact strip_append (fun _ => isBlank_of_mem_blanks) (by simp [opening])
      (by simp [opening, isBlank]) (by simp [hlast, isBlank]) _
  -- the words are cut from the text with one space behind each of the first two
  have hopening (more : List Char) : opening before origin after ++ more =
      "from".toList ++ ' ' :: (blanks before ++
        (origin.text ++ ' ' :: (blanks after ++ ("import".toList ++ more)))) := by
    simp [opening, blanks_succ]
  rw [hopening] at hstrip
  have hwords := congrArg wordsOf hstrip
  rw [wordsOf_append_space (by simp) (by simp [isBlank]), wordsOf_blanks_append,
    wordsOf_append_space origin.text_ne_nil (fun _ => Origin.isBlank_of_mem_text)] at hwords
  rw [modulesOfLine_of_from hstrip hwords, origin.module?_toList]

/-- A line names the modules of its statement exactly when its comment is clear. -/
theorem modulesOfLine_line_iff (s : ImportStatement) : modulesOfLine s.line = s.tops ↔ s.Clear := by
  cases s with
  | names indent before origin after text =>
    exact iff_of_true (modulesOfLine_names indent before origin after text) trivial
  | modules indent init last comment =>
    rw [modulesOfLine_modules, tops, List.map_append, List.append_cancel_left_eq]
    cases comment with
    | none =>
      have hcut : cut ',' (last.text ++ remark none) = [last.text] := by
        rw [remark, Option.map_none, Option.getD_none, List.append_nil,
          cut_of_free last.comma_not_mem_text]
      refine iff_of_true ?_ trivial
      rw [hcut, List.filterMap_cons_some last.moduleOfPiece?_text]
      rfl
    | some comment =>
      -- the comment starts in the piece of the last name; its other pieces are its own
      have hfront : ',' ∉ last.text ++ ['#'] := by simp [last.comma_not_mem_text]
      obtain ⟨piece, hcut⟩ := cut_append_eq hfront comment.toList
      obtain ⟨top, htop, hsame⟩ := last.moduleOfPiece?_text_remark piece
      rw [List.append_assoc, List.append_assoc, List.singleton_append, List.singleton_append] at hcut
      rw [remark, Option.map_some, Option.getD_some, hcut, List.filterMap_cons_some htop,
        List.map_singleton, List.cons_eq_cons, hsame, List.filterMap_eq_nil_iff]
      simp only [moduleOfPiece?_eq_none_iff]
      rfl

end ImportStatement

/-! ## Modules of a script -/

/-- Each module is named once, in the order of first mention. -/
theorem importedModules_eq (lines : List String) :
    importedModules lines = (lines.flatMap modulesOfLine).eraseDups := by
  -- what was seen stands in reverse
  have hfold (modules seen : List String) :
      (modules.foldl (fun seen module => if seen.contains module then seen else module :: seen)
        seen).reverse = modules.foldl addNew seen.reverse := by
    induction modules generalizing seen with
    | nil => rfl
    | cons module rest ih =>
      rw [List.foldl_cons, List.foldl_cons, ih, addNew]
      congr 1
      by_cases h : module ∈ seen <;> simp [h]
  rw [importedModules, hfold, List.reverse_nil, foldl_addNew List.nodup_nil, List.nil_append]

open ImportStatement

/-- The lines of import statements name their modules, without the relative ones, exactly when the
comments are clear. Then the modules of the statements are found, each once, in the order of first
mention, and the packages to install are those of the modules that are not bundled. -/
theorem imported_modules_iff (statements : List ImportStatement) :
    ((statements.map line).map modulesOfLine = statements.map tops ↔ ∀ s ∈ statements, s.Clear) ∧
      ((∀ s ∈ statements, s.Clear) →
        importedModules (statements.map line) = (statements.flatMap tops).eraseDups ∧
          packagesOf (statements.map line) =
            ((statements.flatMap tops).eraseDups.filter (fun m => !isBundled m)).map packageOf) := by
  have hiff : (statements.map line).map modulesOfLine = statements.map tops ↔
      ∀ s ∈ statements, s.Clear := by
    rw [List.map_map, List.map_inj_left]
    exact forall₂_congr fun s _ => s.modulesOfLine_line_iff
  refine ⟨hiff, fun hclear => ?_⟩
  have himported : importedModules (statements.map line) = (statements.flatMap tops).eraseDups := by
    rw [importedModules_eq, List.flatMap_def, List.flatMap_def, hiff.mpr hclear]
  exact ⟨himported, by rw [packagesOf, himported]⟩

/-- Statements in several layouts. Nothing stands behind the comma in the first comment. -/
def layouts : List ImportStatement :=
  [.modules 0
      [{ name := { top := "os" } },
        { lead := 1, name := { top := "numpy", inner := ["linalg"] }, newName := some { name := "la" } }]
      { lead := 2, name := { top := "json" }, trail := 2 } (some " as it is,"),
    .names 2 1 (.absolute { top := "sklearn", inner := ["cluster"] }) 0 " KMeans  # one, two",
    .names 0 0 (.relative 0 none) 0 " helpers",
    .modules 0 [] { name := { top := "numpy" }, newName := some { after := 1, name := "np" } } none]

theorem layouts_imported :
    layouts.map line =
        ["import os, numpy.linalg as la,  json  # as it is,",
          "  from  sklearn.cluster import KMeans  # one, two", "from . import helpers",
          "import numpy as  np"] ∧
      (∀ s ∈ layouts, s.Clear) ∧
      importedModules (layouts.map line) = ["os", "numpy", "json", "sklearn"] ∧
      packagesOf (layouts.map line) = ["numpy", "scikit-learn"] := by
  have hbehind : (cut ',' " as it is,".toList).tail = [[]] := by decide
  have hclear : ∀ s ∈ layouts, s.Clear := by
    simp only [layouts, List.forall_mem_cons]
    refine ⟨⟨.inl (by decide), ?_⟩, trivial, trivial, trivial, by simp⟩
    rw [hbehind]
    simp [strip_eq_nil]
  obtain ⟨hmodules, hpackages⟩ := (imported_modules_iff layouts).2 hclear
  exact ⟨by decide +kernel, hclear, hmodules.trans (by decide), hpackages.trans (by decide)⟩

/-- An import with a comment that holds commas. -/
def remarkedImport : ImportStatement :=
  .modules 0 [] { name := { top := "os" }, trail := 1 } (some " uses json, yaml")

/-- What stands behind a comma of a comment is taken for a module, and its package is offered. -/
theorem remark_names_package :
    remarkedImport.line = "import os # uses json, yaml" ∧
      remarkedImport.tops = ["os"] ∧
      importedModules [remarkedImport.line] = ["os", "yaml"] ∧
      packagesOf [remarkedImport.line] = ["PyYAML"] := by
  decide +kernel

end FlowScript
