import FlowScript.Proofs.Script.CallText

/-!
# Reading calls

A reader for calls as they stand in a script: between the brackets there are words, stars, equals
signs and commas, and blanks, line ends and comments do not matter. What a node passes for the
entries of a parameter list is read back from the lines of its call.

## Main definitions

- `scan`, `readCall` — the tokens between the brackets of a call, and what they pass
- `Entry` — an entry of a parameter list, markers included
- `passed` — what a node passes for the entries, given their sources

## Main results

- `arguments_text` — the arguments of a call are the texts of what is passed
- `readCall_callText` — the reader finds in the lines of a call what is passed
-/

namespace FlowScript.Script

open Source

/-! ## The reader -/

/-- The words that name neither variables nor parameters. -/
def reservedWords : List String :=
  ["False", "None", "True", "and", "as", "assert", "async", "await", "break", "class", "continue",
    "def", "del", "elif", "else", "except", "finally", "for", "from", "global", "if", "import", "in",
    "is", "lambda", "nonlocal", "not", "or", "pass", "raise", "return", "try", "while", "with",
    "yield"]

/-- A token between the brackets of a call. -/
inductive Token
  | word (text : String)
  | star
  | doubleStar
  | equals
  | comma
  | close
  deriving DecidableEq

/-- What the scanner is in the middle of. -/
inductive ScanMode
  | between
  | word (front : List Char)
  | star
  | comment
  deriving DecidableEq

/-- The token that the end of the text completes. -/
def ScanMode.pending : ScanMode → List Token
  | .between | .comment => []
  | .word front => [.word (String.ofList front)]
  | .star => [.star]

/-- A character after which nothing is pending from before. -/
def scanStart? (c : Char) : Option (List Token × ScanMode) :=
  if c = ' ' ∨ c = '\t' ∨ c = '\n' ∨ c = '\r' then some ([], .between)
  else if c = '#' then some ([], .comment)
  else if c = '*' then some ([], .star)
  else if c = '=' then some ([.equals], .between)
  else if c = ',' then some ([.comma], .between)
  else if c = ')' then some ([.close], .between)
  else if isIdentStart c then some ([], .word [c])
  else none

/-- One character: the tokens that it completes, and what the scanner is in then. -/
def scanStep : ScanMode → Char → Option (List Token × ScanMode)
  | .between, c => scanStart? c
  | .word front, c =>
    if isWordChar c then some ([], .word (front ++ [c]))
    else (scanStart? c).map (fun (ts, m) => (.word (String.ofList front) :: ts, m))
  | .star, c =>
    if c = '*' then some ([.doubleStar], .between)
    else (scanStart? c).map (fun (ts, m) => (.star :: ts, m))
  | .comment, c => some ([], if c = '\n' ∨ c = '\r' then .between else .comment)

/-- The tokens of a text, and what the scanner is in at its end. -/
def scan : ScanMode → List Char → Option (List Token × ScanMode)
  | m, [] => some ([], m)
  | m, c :: cs =>
    match scanStep m c with
    | none => none
    | some (ts, m') => (scan m' cs).map (fun (us, m'') => (ts ++ us, m''))

/-- A value in a call: `None` or a variable. -/
inductive Operand
  | none
  | var (name : String)
  deriving DecidableEq

/-- What one argument of a call passes. -/
inductive Actual
  | positional (value : Operand)
  | keyword (name : String) (value : Operand)
  | spread (name : String)
  | spreadNamed (name : String)
  deriving DecidableEq

/-- The value that a word stands for. -/
def operand? (word : String) : Option Operand :=
  if word = "None" then some .none
  else if word ∈ reservedWords then none
  else some (.var word)

/-- The variable or the parameter that a word names. -/
def name? (word : String) : Option String :=
  if word ∈ reservedWords then none else some word

/-- What the tokens of one argument pass. -/
def actual? : List Token → Option Actual
  | [.word v] => (operand? v).map .positional
  | [.word n, .equals, .word v] =>
    match name? n, operand? v with
    | some n, some v => some (.keyword n v)
    | _, _ => none
  | [.star, .word v] => (name? v).map .spread
  | [.doubleStar, .word v] => (name? v).map .spreadNamed
  | _ => none

/-- What the tokens between the brackets of a call pass. The last argument may have a comma. -/
def actuals? (tokens : List Token) : Option (List Actual) :=
  let pieces := tokens.splitOn .comma
  (if pieces.getLast? = some [] then pieces.dropLast else pieces).mapM actual?

/-- The function that a call names, and what it passes. -/
def readCall (text : List Char) : Option (String × List Actual) :=
  match text.dropWhile isWordChar with
  | '(' :: inside =>
    match scan .between inside with
    | none => none
    | some (tokens, m) =>
      if (tokens ++ m.pending).getLast? = some .close then
        (actuals? (tokens ++ m.pending).dropLast).map
          (fun passed => (String.ofList (text.takeWhile isWordChar), passed))
      else none
  | _ => none

/-! ## What is passed -/

/-- The word for a value. -/
def Operand.text : Operand → String
  | .none => "None"
  | .var name => name

/-- The text of an argument. -/
def Actual.text : Actual → String
  | .positional v => v.text
  | .keyword n v => n ++ "=" ++ v.text
  | .spread v => "*" ++ v
  | .spreadNamed v => "**" ++ v

/-- The tokens of an argument. -/
def Actual.tokens : Actual → List Token
  | .positional v => [.word v.text]
  | .keyword n v => [.word n, .equals, .word v.text]
  | .spread v => [.star, .word v]
  | .spreadNamed v => [.doubleStar, .word v]

/-- A name that may stand for a variable or a parameter. -/
def isName (s : String) : Bool :=
  !reservedWords.contains s &&
    match s.toList with
    | [] => false
    | c :: cs => isIdentStart c && cs.all isWordChar

theorem isIdentifier_of_isName {s : String} (h : isName s = true) : IsIdentifier s := by
  rw [isName, Bool.and_eq_true] at h
  cases hs : s.toList with
  | nil => simp [hs] at h
  | cons c cs =>
    rw [hs] at h
    simp only [Bool.and_eq_true, List.all_eq_true] at h
    refine ⟨?_, c, cs, hs, h.2.1⟩
    intro d hd
    rw [hs] at hd
    rcases List.mem_cons.mp hd with rfl | hd
    · exact isWordChar_of_isIdentChar (isIdentChar_of_isIdentStart h.2.1)
    · exact h.2.2 d hd

theorem not_mem_reservedWords_of_isName {s : String} (h : isName s = true) : s ∉ reservedWords := by
  rw [isName, Bool.and_eq_true] at h
  simpa using h.1

theorem isName_of_isIdentifier {s : String} (h : IsIdentifier s) (hs : s ∉ reservedWords) :
    isName s = true := by
  obtain ⟨c, cs, hcs, hc⟩ := h.start
  have hword : ∀ d ∈ cs, isWordChar d = true := by
    intro d hd
    exact h.word d (by rw [hcs]; exact List.mem_cons_of_mem c hd)
  simp only [isName, hcs, Bool.and_eq_true, List.all_eq_true]
  exact ⟨by simpa using hs, hc, hword⟩

/-- The variable of a value is a name. -/
def Operand.Named : Operand → Prop
  | .none => True
  | .var name => isName name = true

/-- The variables and the parameters of an argument are names. -/
def Actual.Named : Actual → Prop
  | .positional v => v.Named
  | .keyword n v => isName n = true ∧ v.Named
  | .spread v | .spreadNamed v => isName v = true

theorem Operand.isIdentifier_text {v : Operand} (h : v.Named) : IsIdentifier v.text := by
  cases v with
  | none => exact ⟨by simp [IsWord, Operand.text, isWordChar], 'N', "one".toList, rfl, by decide⟩
  | var name => exact isIdentifier_of_isName h

theorem operand?_text {v : Operand} (h : v.Named) : operand? v.text = some v := by
  cases v with
  | none => rfl
  | var name =>
    have hnot := not_mem_reservedWords_of_isName h
    have hnone : name ≠ "None" := by
      rintro rfl
      exact hnot (by decide)
    rw [Operand.text, operand?, if_neg hnone, if_neg hnot]

theorem name?_of_isName {n : String} (h : isName n = true) : name? n = some n :=
  if_neg (not_mem_reservedWords_of_isName h)

theorem actual?_tokens {a : Actual} (h : a.Named) : actual? a.tokens = some a := by
  cases a with
  | positional v => simp [Actual.tokens, actual?, operand?_text (v := v) h]
  | keyword n v => simp [Actual.tokens, actual?, name?_of_isName h.1, operand?_text h.2]
  | spread v => simp [Actual.tokens, actual?, name?_of_isName (n := v) h]
  | spreadNamed v => simp [Actual.tokens, actual?, name?_of_isName (n := v) h]

theorem comma_not_mem_tokens (a : Actual) : Token.comma ∉ a.tokens := by
  cases a <;> simp [Actual.tokens]

theorem tokens_ne_nil (a : Actual) : a.tokens ≠ [] := by
  cases a <;> simp [Actual.tokens]

/-! ## Scanning arguments -/

/-- Puts tokens before those of a scan. -/
def before (front : List Token) (r : Option (List Token × ScanMode)) :
    Option (List Token × ScanMode) :=
  r.map (fun (ts, m) => (front ++ ts, m))

@[simp] theorem before_nil (r : Option (List Token × ScanMode)) : before [] r = r := by
  cases r <;> rfl

@[simp] theorem before_some (front ts : List Token) (m : ScanMode) :
    before front (some (ts, m)) = some (front ++ ts, m) :=
  rfl

theorem before_before (front next : List Token) (r : Option (List Token × ScanMode)) :
    before front (before next r) = before (front ++ next) r := by
  cases r <;> simp [before]

theorem scan_cons {m m' : ScanMode} {c : Char} {ts : List Token} (h : scanStep m c = some (ts, m'))
    (cs : List Char) : scan m (c :: cs) = before ts (scan m' cs) := by
  rw [scan, h]
  rfl

/-- A word ends at the first character that cannot go on with it. -/
theorem scan_word {front : List Char} {c : Char} (hc : isWordChar c = false) (cs : List Char) :
    scan (.word front) (c :: cs) = before [.word (String.ofList front)] (scan .between (c :: cs)) := by
  simp only [scan, scanStep, hc, Bool.false_eq_true, if_false]
  cases scanStart? c with
  | none => rfl
  | some r =>
    obtain ⟨ts, m⟩ := r
    simp only [Option.map_some]
    cases scan m cs <;> simp [before]

theorem scan_word_append {front more : List Char} (h : ∀ c ∈ more, isWordChar c = true)
    (cs : List Char) : scan (.word front) (more ++ cs) = scan (.word (front ++ more)) cs := by
  induction more generalizing front with
  | nil => simp
  | cons c more ih =>
    have hstep : scanStep (.word front) c = some ([], .word (front ++ [c])) := by
      simp [scanStep, h c List.mem_cons_self]
    rw [List.cons_append, scan_cons hstep, before_nil,
      ih (fun d hd => h d (List.mem_cons_of_mem c hd)), List.append_assoc]
    rfl

theorem scanStart?_of_isIdentStart {c : Char} (h : isIdentStart c = true) :
    scanStart? c = some ([], .word [c]) := by
  have hne : ∀ d : Char, isIdentStart d = false → c ≠ d := by
    rintro d hd rfl
    rw [h] at hd
    cases hd
  simp [scanStart?, h, hne ' ' (by decide), hne '\t' (by decide), hne '\n' (by decide),
    hne '\r' (by decide), hne '#' (by decide), hne '*' (by decide), hne '=' (by decide),
    hne ',' (by decide), hne ')' (by decide)]

/-- A word that nothing goes on with is one token. -/
theorem scan_identifier {w : String} (hw : IsIdentifier w) {c : Char} (hc : isWordChar c = false)
    (cs : List Char) :
    scan .between (w.toList ++ c :: cs) = before [.word w] (scan .between (c :: cs)) := by
  obtain ⟨d, ds, hds, hd⟩ := hw.start
  have hmore : ∀ e ∈ ds, isWordChar e = true := fun e he =>
    hw.word e (by rw [hds]; exact List.mem_cons_of_mem d he)
  have hstep : scanStep .between d = some ([], .word [d]) := scanStart?_of_isIdentStart hd
  rw [hds, List.cons_append, scan_cons hstep, before_nil, scan_word_append hmore, scan_word hc,
    List.singleton_append, ← hds, String.ofList_toList]

theorem scan_star_identifier {w : String} (hw : IsIdentifier w) {c : Char}
    (hc : isWordChar c = false) (cs : List Char) :
    scan .star (w.toList ++ c :: cs) = before [.star, .word w] (scan .between (c :: cs)) := by
  obtain ⟨d, ds, hds, hd⟩ := hw.start
  have hne : d ≠ '*' := by
    rintro rfl
    revert hd
    decide
  have hstep : scanStep .star d = some ([.star], .word [d]) := by
    simp [scanStep, hne, scanStart?_of_isIdentStart hd]
  have hmore : ∀ e ∈ ds, isWordChar e = true := fun e he =>
    hw.word e (by rw [hds]; exact List.mem_cons_of_mem d he)
  rw [hds, List.cons_append, scan_cons hstep, scan_word_append hmore, scan_word hc,
    List.singleton_append, ← hds, String.ofList_toList, before_before]
  rfl

theorem scan_text {a : Actual} (ha : a.Named) {c : Char} (hc : isWordChar c = false)
    (cs : List Char) :
    scan .between (a.text.toList ++ c :: cs) = before a.tokens (scan .between (c :: cs)) := by
  cases a with
  | positional v => exact scan_identifier (Operand.isIdentifier_text ha) hc cs
  | keyword n v =>
    have hn := scan_identifier (isIdentifier_of_isName ha.1) (c := '=') (by decide)
      (v.text.toList ++ c :: cs)
    have hsign := scan_cons (show scanStep .between '=' = some ([.equals], .between) from rfl)
      (v.text.toList ++ c :: cs)
    rw [hsign, scan_identifier (Operand.isIdentifier_text ha.2) hc, before_before, before_before] at hn
    simpa [Actual.text, Actual.tokens] using hn
  | spread v =>
    have hstar := scan_cons (show scanStep .between '*' = some ([], .star) from rfl)
      (v.toList ++ c :: cs)
    rw [scan_star_identifier (isIdentifier_of_isName ha) hc, before_nil] at hstar
    simpa [Actual.text, Actual.tokens] using hstar
  | spreadNamed v =>
    have hstar := scan_cons (show scanStep .between '*' = some ([], .star) from rfl)
      ('*' :: (v.toList ++ c :: cs))
    rw [scan_cons (show scanStep .star '*' = some ([.doubleStar], .between) from rfl),
      scan_identifier (isIdentifier_of_isName ha) hc, before_nil, before_before] at hstar
    simpa [Actual.text, Actual.tokens] using hstar

/-- Arguments on one line, up to the closing bracket. -/
theorem scan_intercalate {passed : List Actual} (h : ∀ a ∈ passed, a.Named) :
    scan .between ((String.intercalate ", " (passed.map Actual.text)).toList ++ [')']) =
      some ([Token.comma].intercalate (passed.map Actual.tokens) ++ [.close], .between) := by
  induction passed with
  | nil => rfl
  | cons a rest ih =>
    have ha := h a List.mem_cons_self
    have ih := ih (fun b hb => h b (List.mem_cons_of_mem a hb))
    by_cases hr : rest = []
    · subst hr
      have hclose := scan_text ha (c := ')') (by decide) []
      rw [show scan .between [')'] = some ([.close], .between) from rfl, before_some] at hclose
      simpa using hclose
    · have hmap : ∀ {β : Type} (g : Actual → β), rest.map g ≠ [] := by
        intro β g
        simpa using hr
      have hcomma := scan_text ha (c := ',') (by decide)
        (' ' :: ((String.intercalate ", " (rest.map Actual.text)).toList ++ [')']))
      rw [scan_cons (show scanStep .between ',' = some ([.comma], .between) from rfl),
        scan_cons (show scanStep .between ' ' = some ([], .between) from rfl), before_nil, ih,
        before_some, before_some] at hcomma
      rw [List.map_cons, List.map_cons, String.intercalate_cons_of_ne_nil (hmap _),
        List.intercalate_cons_of_ne_nil (hmap _)]
      simpa using hcomma

/-- A comment reaches to the end of its line. -/
theorem scan_comment {text : List Char} (h : '\n' ∉ text) (hr : '\r' ∉ text) (cs : List Char) :
    scan .comment (text ++ '\n' :: cs) = scan .between ('\n' :: cs) := by
  induction text with
  | nil => rfl
  | cons c text ih =>
    simp only [List.mem_cons, not_or] at h hr
    have hstep : scanStep .comment c = some ([], .comment) := by
      simp [scanStep, Ne.symm h.1, Ne.symm hr.1]
    rw [List.cons_append, scan_cons hstep, before_nil, ih h.2 hr.2]

/-- An argument on a line of its own. -/
theorem scan_argumentLine {a : Argument} {p : Actual} (hp : p.Named) (htext : a.text = p.text)
    (hcomment : ∀ comment, a.comment = some comment →
      '\n' ∉ comment.toList ∧ '\r' ∉ comment.toList) (cs : List Char) :
    scan .between ('\n' :: ((argumentLine a).toList ++ '\n' :: cs)) =
      before (p.tokens ++ [.comma]) (scan .between ('\n' :: cs)) := by
  have hblank : ∀ rest, scan .between ('\n' :: ' ' :: ' ' :: ' ' :: ' ' :: rest) =
      scan .between rest := by
    intro rest
    simp only [scan_cons (show scanStep .between '\n' = some ([], .between) from rfl),
      scan_cons (show scanStep .between ' ' = some ([], .between) from rfl), before_nil]
  have hcomma : ∀ rest, scan .between (p.text.toList ++ ',' :: rest) =
      before (p.tokens ++ [.comma]) (scan .between rest) := by
    intro rest
    rw [scan_text hp (by decide),
      scan_cons (show scanStep .between ',' = some ([.comma], .between) from rfl), before_before]
  cases hc : a.comment with
  | none =>
    have hline : (argumentLine a).toList ++ '\n' :: cs =
        ' ' :: ' ' :: ' ' :: ' ' :: (p.text.toList ++ ',' :: '\n' :: cs) := by
      simp [argumentLine, hc, htext, indent]
    rw [hline, hblank, hcomma]
  | some comment =>
    have hline : (argumentLine a).toList ++ '\n' :: cs = ' ' :: ' ' :: ' ' :: ' ' ::
        (p.text.toList ++ ',' :: ' ' :: ' ' :: '#' :: ' ' :: (comment.toList ++ '\n' :: cs)) := by
      simp [argumentLine, hc, htext, indent]
    obtain ⟨hn, hr⟩ := hcomment comment hc
    rw [hline, hblank, hcomma, scan_cons (show scanStep .between ' ' = some ([], .between) from rfl),
      scan_cons (show scanStep .between ' ' = some ([], .between) from rfl),
      scan_cons (show scanStep .between '#' = some ([], .comment) from rfl),
      scan_cons (show scanStep .comment ' ' = some ([], .comment) from rfl), scan_comment hn hr]
    simp only [before_nil]

/-- Arguments on lines of their own, up to the closing bracket. -/
theorem scan_argumentLines {args : List Argument} {passed : List Actual}
    (htexts : args.map (·.text) = passed.map Actual.text) (h : ∀ p ∈ passed, p.Named)
    (hcomments : ∀ a ∈ args, ∀ comment, a.comment = some comment →
      '\n' ∉ comment.toList ∧ '\r' ∉ comment.toList) :
    scan .between (args.flatMap (fun a => '\n' :: (argumentLine a).toList) ++ ['\n', ')']) =
      some ([Token.comma].intercalate (passed.map Actual.tokens ++ [[]]) ++ [.close],
        .between) := by
  induction args generalizing passed with
  | nil =>
    obtain rfl : passed = [] := by simpa using htexts.symm
    rfl
  | cons a args ih =>
    cases passed with
    | nil => simp at htexts
    | cons p passed =>
      rw [List.map_cons, List.map_cons, List.cons.injEq] at htexts
      have hrest := ih htexts.2 (fun q hq => h q (List.mem_cons_of_mem p hq))
        (fun b hb => hcomments b (List.mem_cons_of_mem a hb))
      -- the lines that follow start with a line end
      obtain ⟨cs, hcs⟩ : ∃ cs, args.flatMap (fun a => '\n' :: (argumentLine a).toList)
          ++ ['\n', ')'] = '\n' :: cs := by
        cases args with
        | nil => exact ⟨[')'], rfl⟩
        | cons b args => exact ⟨_, rfl⟩
      rw [List.flatMap_cons, List.append_assoc, hcs, List.cons_append,
        scan_argumentLine (h p List.mem_cons_self) htexts.1 (hcomments a List.mem_cons_self), ← hcs,
        hrest, before_some, List.map_cons, List.cons_append, List.intercalate_cons_of_ne_nil (by simp)]
      simp

/-! ## Entries of parameter lists -/

/-- An entry of a parameter list. The markers are entries too. -/
inductive Entry
  | slash
  | bareStar
  | named (name : String)
  | variadic (name : String)
  | keywords (name : String)
  deriving DecidableEq

namespace Entry

/-- An entry as a port spells it. -/
def spelled : Entry → String
  | .slash => "/"
  | .bareStar => "*"
  | .named n => n
  | .variadic n => "*" ++ n
  | .keywords n => "**" ++ n

/-- The name of an entry may stand for a parameter. -/
def Named : Entry → Prop
  | .slash | .bareStar => True
  | .named n | .variadic n | .keywords n => isName n = true

/-- What is passed for an entry, if anything. -/
def passed? (keyword : Bool) (source : Option String) : Entry → Option Actual
  | .slash | .bareStar => none
  | .named n =>
    match source with
    | none => some (.keyword n .none)
    | some v => some (if keyword then .keyword n (.var v) else .positional (.var v))
  | .variadic _ => source.map .spread
  | .keywords _ => source.map .spreadNamed

/-- Behind this entry everything is passed by name. -/
def turnsKeyword (source : Option String) : Entry → Bool
  | .bareStar => true
  | .named _ => source.isNone
  | .slash | .variadic _ | .keywords _ => false

end Entry

/-- What is passed for the entries of a parameter list, given the source of each. -/
def passed (source : String → Option String) : Bool → List Entry → List Actual
  | _, [] => []
  | keyword, e :: rest =>
    (e.passed? keyword (source e.spelled)).toList
      ++ passed source (keyword || e.turnsKeyword (source e.spelled)) rest

theorem sanitize_of_isWord {s : String} (h : IsWord s) : sanitize s = s := by
  have hmap : s.toList.map (fun c => if isWordChar c then c else '_') = s.toList.map (fun c => c) :=
    List.map_congr_left (fun c hc => if_pos (h c hc))
  rw [sanitize, hmap, List.map_id', String.ofList_toList]

/-- The stars before a name are all there are. -/
theorem starsOf_stars (stars : List Char) (h : ∀ c ∈ stars, c = '*') {s : String}
    (hs : IsIdentifier s) : starsOf (String.ofList stars ++ s) = String.ofList stars := by
  obtain ⟨c, cs, hcs, hc⟩ := hs.start
  have hne : c ≠ '*' := by
    rintro rfl
    revert hc
    decide
  unfold starsOf
  rw [String.toList_append, String.toList_ofList, hcs,
    List.takeWhile_append_of_pos (by simpa using h), List.takeWhile_cons_of_neg (by simpa using hne),
    List.append_nil]

/-- A name is no marker, also behind stars. -/
theorem stars_append_ne {s : String} (hs : IsIdentifier s) (stars : String) {m : String}
    (hm : m.toList.all (fun c => !isWordChar c) = true) : stars ++ s ≠ m := by
  rintro rfl
  obtain ⟨c, cs, hcs, -⟩ := hs.start
  have hfalse := List.all_eq_true.mp hm c (by simp [hcs])
  rw [hs.word c (by simp [hcs])] at hfalse
  cases hfalse

/-- A name is no marker, and there are no stars in front of it. -/
theorem plain_of_isIdentifier {n : String} (h : IsIdentifier n) :
    n ≠ "/" ∧ n ≠ "*" ∧ starsOf n = "" := by
  have hslash := stars_append_ne h "" (m := "/") (by decide)
  have hstar := stars_append_ne h "" (m := "*") (by decide)
  have hstars := starsOf_stars [] (by simp) h
  rw [String.empty_append] at hslash hstar
  rw [String.ofList_nil, String.empty_append] at hstars
  exact ⟨hslash, hstar, hstars⟩

/-- The argument for one entry has the text of what is passed for it. -/
theorem arguments_cons_text {e : Entry} (he : e.Named) {port : Port}
    (hport : Port.parameter port = e.spelled) (keyword : Bool) (source : Option String)
    (rest : List (Port × Option String)) :
    (arguments keyword ((port, source) :: rest)).map (·.text) =
      (e.passed? keyword source).toList.map Actual.text
        ++ (arguments (keyword || e.turnsKeyword source) rest).map (·.text) := by
  cases e with
  | slash => simp [arguments, hport, Entry.spelled, Entry.passed?, Entry.turnsKeyword]
  | bareStar => simp [arguments, hport, Entry.spelled, Entry.passed?, Entry.turnsKeyword]
  | named n =>
    have hn := isIdentifier_of_isName he
    obtain ⟨hslash, hstar, hstars⟩ := plain_of_isIdentifier hn
    simp only [arguments, hport, Entry.spelled, Entry.passed?, Entry.turnsKeyword, beq_iff_eq]
    rw [if_neg hslash, if_neg hstar, hstars, if_pos (by decide), sanitize_of_isWord hn.word]
    cases source with
    | none => simp [Actual.text, Operand.text, String.append_assoc]
    | some v => cases keyword <;> simp [Actual.text, Operand.text]
  | variadic n =>
    have hn := isIdentifier_of_isName he
    have hslash := stars_append_ne hn "*" (m := "/") (by decide)
    have hstar := stars_append_ne hn "*" (m := "*") (by decide)
    have hstars : starsOf ("*" ++ n) = "*" := starsOf_stars ['*'] (by simp) hn
    simp only [arguments, hport, Entry.spelled, Entry.passed?, Entry.turnsKeyword, beq_iff_eq]
    rw [if_neg hslash, if_neg hstar, hstars, if_neg (by decide)]
    cases source <;> simp [Actual.text]
  | keywords n =>
    have hn := isIdentifier_of_isName he
    have hslash := stars_append_ne hn "**" (m := "/") (by decide)
    have hstar := stars_append_ne hn "**" (m := "*") (by decide)
    have hstars : starsOf ("**" ++ n) = "**" := starsOf_stars ['*', '*'] (by simp) hn
    simp only [arguments, hport, Entry.spelled, Entry.passed?, Entry.turnsKeyword, beq_iff_eq]
    rw [if_neg hslash, if_neg hstar, hstars, if_neg (by decide)]
    cases source <;> simp [Actual.text]

/-- The arguments of ports that spell the entries of a parameter list have the texts of what is
passed for the entries. -/
theorem arguments_text {entries : List Entry} (h : ∀ e ∈ entries, e.Named) {ports : List Port}
    (hports : ports.map Port.parameter = entries.map Entry.spelled)
    (source : String → Option String) (keyword : Bool) :
    (arguments keyword (ports.map (fun p => (p, source (Port.parameter p))))).map (·.text) =
      (passed source keyword entries).map Actual.text := by
  induction entries generalizing ports keyword with
  | nil =>
    obtain rfl : ports = [] := by simpa using hports
    rfl
  | cons e entries ih =>
    cases ports with
    | nil => simp at hports
    | cons port ports =>
      rw [List.map_cons, List.map_cons, List.cons.injEq] at hports
      rw [List.map_cons, arguments_cons_text (h e List.mem_cons_self) hports.1, passed,
        List.map_append, hports.1, ih (fun e' he' => h e' (List.mem_cons_of_mem e he')) hports.2]

theorem named_of_mem_passed {entries : List Entry} (h : ∀ e ∈ entries, e.Named)
    {source : String → Option String} (hsource : ∀ s v, source s = some v → isName v = true)
    {keyword : Bool} : ∀ a ∈ passed source keyword entries, a.Named := by
  induction entries generalizing keyword with
  | nil => simp [passed]
  | cons e entries ih =>
    have he := h e List.mem_cons_self
    intro a ha
    rcases List.mem_append.mp ha with ha | ha
    · rw [Option.mem_toList] at ha
      cases hs : source e.spelled with
      | none =>
        rw [hs] at ha
        cases e with
        | named n =>
          obtain rfl := Option.some.inj ha
          exact ⟨he, trivial⟩
        | _ => cases ha
      | some v =>
        rw [hs] at ha
        have hv := hsource _ _ hs
        cases e with
        | named n =>
          obtain rfl := Option.some.inj ha
          cases keyword
          · exact hv
          · exact ⟨he, hv⟩
        | slash => cases ha
        | bareStar => cases ha
        | variadic n =>
          obtain rfl := Option.some.inj ha
          exact hv
        | keywords n =>
          obtain rfl := Option.some.inj ha
          exact hv
    · exact ih (fun e' he' => h e' (List.mem_cons_of_mem e he')) a ha

/-! ## Reading a call back -/

theorem mapM_eq_some_map {α β : Type} {g : α → Option β} {h : α → β} {as : List α}
    (hg : ∀ a ∈ as, g a = some (h a)) : as.mapM g = some (as.map h) := by
  induction as with
  | nil => rfl
  | cons a as ih =>
    rw [List.mapM_cons, hg a List.mem_cons_self, ih (fun b hb => hg b (List.mem_cons_of_mem a hb))]
    rfl

theorem mapM_actual?_tokens {passed : List Actual} (h : ∀ a ∈ passed, a.Named) :
    (passed.map Actual.tokens).mapM actual? = some passed := by
  have hread : passed.mapM (actual? ∘ Actual.tokens) = some (passed.map (fun a => a)) :=
    mapM_eq_some_map (fun a ha => actual?_tokens (h a ha))
  rw [List.mapM_map, hread, List.map_id']

/-- Arguments with a comma between each two are read back. -/
theorem actuals?_intercalate {passed : List Actual} (h : ∀ a ∈ passed, a.Named) :
    actuals? ([Token.comma].intercalate (passed.map Actual.tokens)) = some passed := by
  by_cases hne : passed = []
  · subst hne
    rfl
  · have hcomma : ∀ piece ∈ passed.map Actual.tokens, Token.comma ∉ piece := by
      intro piece hpiece
      obtain ⟨a, -, rfl⟩ := List.mem_map.mp hpiece
      exact comma_not_mem_tokens a
    have hlast : (passed.map Actual.tokens).getLast? ≠ some [] := by
      intro hlast
      obtain ⟨a, -, ha⟩ := List.mem_map.mp (List.mem_of_getLast? hlast)
      exact tokens_ne_nil a ha
    rw [actuals?, List.splitOn_intercalate _ hcomma (by simpa using hne), if_neg hlast,
      mapM_actual?_tokens h]

/-- Arguments with a comma behind each are read back. -/
theorem actuals?_intercalate_comma {passed : List Actual} (h : ∀ a ∈ passed, a.Named) :
    actuals? ([Token.comma].intercalate (passed.map Actual.tokens ++ [[]])) = some passed := by
  have hcomma : ∀ piece ∈ passed.map Actual.tokens ++ [[]], Token.comma ∉ piece := by
    intro piece hpiece
    rcases List.mem_append.mp hpiece with hpiece | hpiece
    · obtain ⟨a, -, rfl⟩ := List.mem_map.mp hpiece
      exact comma_not_mem_tokens a
    · simp [List.mem_singleton.mp hpiece]
  rw [actuals?, List.splitOn_intercalate _ hcomma (by simp), if_pos (by simp), List.dropLast_concat,
    mapM_actual?_tokens h]

theorem readCall_of_scan {function : String} (hf : IsWord function) {inside : List Char}
    {tokens : List Token} (hscan : scan .between inside = some (tokens ++ [.close], .between))
    {passed : List Actual} (hpassed : actuals? tokens = some passed) :
    readCall (function.toList ++ '(' :: inside) = some (function, passed) := by
  have hdrop : (function.toList ++ '(' :: inside).dropWhile isWordChar = '(' :: inside := by
    rw [List.dropWhile_append_of_pos hf, List.dropWhile_cons_of_neg (by decide)]
  have htake : (function.toList ++ '(' :: inside).takeWhile isWordChar = function.toList := by
    rw [List.takeWhile_append_of_pos hf, List.takeWhile_cons_of_neg (by decide), List.append_nil]
  simp [readCall, hdrop, htake, hscan, ScanMode.pending, hpassed]

/-- The reader finds the function and what is passed in the lines of a call. -/
theorem readCall_callText {function : String} (hf : IsWord function) {args : List Argument}
    {passed : List Actual} (htexts : args.map (·.text) = passed.map Actual.text)
    (h : ∀ p ∈ passed, p.Named)
    (hcomments : ∀ a ∈ args, ∀ comment, a.comment = some comment →
      '\n' ∉ comment.toList ∧ '\r' ∉ comment.toList) :
    readCall (String.intercalate "\n" (callText function args)).toList = some (function, passed) := by
  rw [callText_eq]
  split
  · have hline := readCall_of_scan hf (scan_intercalate h) (actuals?_intercalate h)
    rw [htexts]
    simpa using hline
  · have hlines := readCall_of_scan hf (scan_argumentLines htexts h hcomments)
      (actuals?_intercalate_comma h)
    rw [toList_intercalate_lines]
    simpa [List.flatMap_map] using hlines

end FlowScript.Script
