import FlowScript.Source.Bracketing
import FlowScript.Proofs.Text.Lines

/-!
# Logical lines

Python reads a source in logical lines: a line goes on with the next one while a bracket or a string
literal is open, or behind a backslash at its end. The reading here keeps what that takes, one
character after the other: how many brackets are open, and whether the reading is in a remark or in
a literal, with one quote or with three. Replacement fields of formatted literals belong to the
literal. A literal with one quote that a line leaves open stays open, as in the readings of headers
and lists.

## Main definitions

- `LineState` — how many brackets are open, and what the next character belongs to
- `LineState.readLine`, `LineState.readLines` — the state behind one line, and behind several
- `logicalLines` — the lines of a source, those of one logical line together

## Main results

- `LineState.readLine_strip` — blanks at the ends of a line do not matter
- `flatten_logicalFrom` — the logical lines hold the lines of the source in order
-/

namespace FlowScript.Source

open Text

/-- The quotes of string literals. -/
inductive Quote where
  | single
  | double
  deriving DecidableEq

namespace Quote

/-- The character of a quote. -/
def char : Quote → Char
  | single => '\''
  | double => '"'

/-- The quote that a character is. -/
def ofChar? (c : Char) : Option Quote :=
  if c == '\'' then some single else if c == '"' then some double else none

end Quote

/-- What the next character of a source belongs to. -/
inductive LineMode where
  /-- Code outside of remarks and literals. -/
  | code
  /-- A remark, which its line ends. -/
  | remark
  /-- Blanks behind a backslash at the end of a line. -/
  | joint
  /-- The start of a line that a backslash joins to the line before. -/
  | joined
  /-- Behind one quote, which opens a literal. -/
  | opening (quote : Quote)
  /-- Behind two quotes: an empty literal, or the start of three quotes. -/
  | twin (quote : Quote)
  /-- A literal that one quote ends. -/
  | short (quote : Quote)
  /-- A literal that three quotes end; some of them may have been read. -/
  | long (quote : Quote) (seen : Nat)
  /-- Behind a backslash in a literal. -/
  | escaped (quote : Quote) (isLong : Bool)
  deriving DecidableEq

/-- Where the reading of a source stands. -/
structure LineState where
  /-- The number of open brackets. -/
  depth : Nat
  mode : LineMode
  deriving DecidableEq

namespace LineState

/-- No bracket, literal or joined line is open: a new statement can start. -/
def fresh : LineState :=
  ⟨0, .code⟩

/-- The state behind a character of code. -/
def afterCode (depth : Nat) (c : Char) : LineState :=
  if c == '#' then ⟨depth, .remark⟩
  else if c == '\\' then ⟨depth, .joint⟩
  else
    match Quote.ofChar? c with
    | some quote => ⟨depth, .opening quote⟩
    | none => ⟨depthAfter depth c, .code⟩

/-- The state behind a character of a literal with one quote. -/
def afterShort (depth : Nat) (quote : Quote) (c : Char) : LineState :=
  if c == '\\' then ⟨depth, .escaped quote false⟩
  else if c == quote.char then ⟨depth, .code⟩
  else ⟨depth, .short quote⟩

/-- The state behind a character of a literal with three quotes. -/
def afterLong (depth : Nat) (quote : Quote) (seen : Nat) (c : Char) : LineState :=
  if c == '\\' then ⟨depth, .escaped quote true⟩
  else if c == quote.char then
    if seen < 2 then ⟨depth, .long quote (seen + 1)⟩ else ⟨depth, .code⟩
  else ⟨depth, .long quote 0⟩

/-- The literal in which an escape stands. -/
def afterEscape (depth : Nat) (quote : Quote) (isLong : Bool) : LineState :=
  ⟨depth, if isLong then .long quote 0 else .short quote⟩

/-- The state behind one more character of a line. A carriage return ends a remark. -/
def step (r : LineState) (c : Char) : LineState :=
  match r.mode with
  | .code => afterCode r.depth c
  | .remark => if c == '\r' then ⟨r.depth, .code⟩ else r
  | .joint | .joined => if isBlank c then r else afterCode r.depth c
  | .opening quote =>
    if c == quote.char then ⟨r.depth, .twin quote⟩ else afterShort r.depth quote c
  | .twin quote =>
    if c == quote.char then ⟨r.depth, .long quote 0⟩ else afterCode r.depth c
  | .short quote => afterShort r.depth quote c
  | .long quote seen => afterLong r.depth quote seen c
  | .escaped quote isLong => afterEscape r.depth quote isLong

/-- The state behind the end of a line. -/
def endLine (r : LineState) : LineState :=
  match r.mode with
  | .code | .remark | .joined | .twin _ => ⟨r.depth, .code⟩
  | .joint => ⟨r.depth, .joined⟩
  | .opening quote | .short quote => ⟨r.depth, .short quote⟩
  | .long quote _ => ⟨r.depth, .long quote 0⟩
  | .escaped quote isLong => afterEscape r.depth quote isLong

/-- The state behind one more line. -/
def readLine (r : LineState) (line : List Char) : LineState :=
  (line.foldl step r).endLine

/-- The state behind some more lines. -/
def readLines (r : LineState) (lines : List (List Char)) : LineState :=
  lines.foldl readLine r

/-! ## Blanks at the ends of a line -/

variable {r : LineState} {c : Char} {cs : List Char}

theorem afterCode_blank (depth : Nat) (hc : isBlank c = true) :
    afterCode depth c = ⟨depth, .code⟩ := by
  have hne : ∀ d, isBlank d = false → c ≠ d := fun d hd h => by simp [← h, hc] at hd
  simp [afterCode, Quote.ofChar?, depthAfter, isOpener, isCloser, hne '#' (by decide),
    hne '\\' (by decide), hne '\'' (by decide), hne '"' (by decide), hne '(' (by decide),
    hne '[' (by decide), hne '\x7b' (by decide), hne ')' (by decide), hne ']' (by decide),
    hne '\x7d' (by decide)]

theorem ne_char_of_blank (hc : isBlank c = true) (quote : Quote) : c ≠ quote.char := by
  rintro rfl
  cases quote <;> exact absurd hc (by decide)

theorem afterShort_blank (depth : Nat) (quote : Quote) (hc : isBlank c = true) :
    afterShort depth quote c = ⟨depth, .short quote⟩ := by
  have hslash : c ≠ '\\' := by
    rintro rfl
    exact absurd hc (by decide)
  simp [afterShort, hslash, ne_char_of_blank hc quote]

theorem afterLong_blank (depth : Nat) (quote : Quote) (seen : Nat) (hc : isBlank c = true) :
    afterLong depth quote seen c = ⟨depth, .long quote 0⟩ := by
  have hslash : c ≠ '\\' := by
    rintro rfl
    exact absurd hc (by decide)
  simp [afterLong, hslash, ne_char_of_blank hc quote]

/-- A blank in front of the end of a line does not matter. -/
theorem endLine_step_blank (r : LineState) (hc : isBlank c = true) :
    (r.step c).endLine = r.endLine := by
  obtain ⟨depth, mode⟩ := r
  cases mode with
  | code => simp [step, endLine, afterCode_blank depth hc]
  | remark => by_cases hcr : c = '\r' <;> simp [step, endLine, hcr]
  | joint => simp [step, hc]
  | joined => simp [step, hc]
  | opening quote =>
    simp [step, endLine, ne_char_of_blank hc quote, afterShort_blank depth quote hc]
  | twin quote => simp [step, endLine, ne_char_of_blank hc quote, afterCode_blank depth hc]
  | short quote => simp [step, endLine, afterShort_blank depth quote hc]
  | long quote seen => simp [step, endLine, afterLong_blank depth quote seen hc]
  | escaped quote isLong => cases isLong <;> rfl

/-- A line can start in the state: blanks in front of it do not matter. -/
def AtStart (r : LineState) : Prop :=
  ∀ c, isBlank c = true → r.step c = r

theorem fresh_atStart : AtStart fresh :=
  fun _ hc => afterCode_blank 0 hc

/-- Behind the end of a line another one can start. -/
theorem endLine_atStart (r : LineState) : AtStart r.endLine := by
  obtain ⟨depth, mode⟩ := r
  intro c hc
  have hcode := afterCode_blank depth hc
  have hshort := fun quote => afterShort_blank depth quote hc
  have hlong := fun quote seen => afterLong_blank depth quote seen hc
  cases mode with
  | escaped quote isLong => cases isLong <;> simp [step, endLine, afterEscape, hshort, hlong]
  | _ => simp [step, endLine, hc, hcode, hshort, hlong]

theorem readLine_atStart (r : LineState) (line : List Char) : AtStart (r.readLine line) :=
  endLine_atStart _

/-- Blanks in front of a line do not matter. -/
theorem readLine_blanks_append (hr : AtStart r) (hcs : ∀ c ∈ cs, isBlank c = true)
    (line : List Char) : r.readLine (cs ++ line) = r.readLine line := by
  have hfold : cs.foldl step r = r := by
    induction cs with
    | nil => rfl
    | cons c cs ih =>
      rw [List.foldl_cons, hr c (hcs c List.mem_cons_self),
        ih (fun d hd => hcs d (List.mem_cons_of_mem c hd))]
  rw [readLine, List.foldl_append, hfold, readLine]

/-- Blanks at the end of a line do not matter. -/
theorem readLine_append_blanks (hcs : ∀ c ∈ cs, isBlank c = true) (line : List Char) :
    r.readLine (line ++ cs) = r.readLine line := by
  induction cs generalizing line with
  | nil => rw [List.append_nil]
  | cons c cs ih =>
    have hlast : r.readLine (line ++ [c]) = r.readLine line := by
      rw [readLine, List.foldl_concat, endLine_step_blank _ (hcs c List.mem_cons_self), readLine]
    rw [List.append_cons, ih (fun d hd => hcs d (List.mem_cons_of_mem c hd)), hlast]

theorem readLine_dropEndWhile {p : Char → Bool} (hp : ∀ c, p c = true → isBlank c = true)
    (line : List Char) : r.readLine (dropEndWhile p line) = r.readLine line := by
  obtain ⟨back, hline, hback⟩ := exists_eq_dropEndWhile_append p line
  conv_rhs => rw [hline]
  exact (readLine_append_blanks (fun c hc => hp c (hback c hc)) _).symm

/-- A line reads like what is left of it without the blanks at its ends. -/
theorem readLine_strip (hr : AtStart r) (line : List Char) :
    r.readLine (strip line) = r.readLine line := by
  rw [strip, stripWhile, readLine_dropEndWhile (fun _ h => h)]
  conv_rhs => rw [← List.takeWhile_append_dropWhile (p := isBlank) (l := line)]
  exact (readLine_blanks_append hr (fun _ => List.mem_takeWhile_imp) _).symm

end LineState

/-! ## Lines that belong together -/

/-- Puts the lines of a logical line together, with the state in front of the first line; what is
not finished at the end is the last one. -/
def logicalFrom (r : LineState) : List (List Char) → List (List (List Char))
  | [] => []
  | line :: rest =>
    if r.readLine line = .fresh then [line] :: logicalFrom .fresh rest
    else
      match logicalFrom (r.readLine line) rest with
      | [] => [[line]]
      | group :: groups => (line :: group) :: groups

/-- The logical lines of a source, each with the lines that it consists of. -/
def logicalLines (lines : List (List Char)) : List (List (List Char)) :=
  logicalFrom .fresh lines

variable {r : LineState} {line : List Char} {lines : List (List Char)}

theorem logicalFrom_cons_of_fresh (h : r.readLine line = .fresh) :
    logicalFrom r (line :: lines) = [line] :: logicalFrom .fresh lines := by
  rw [logicalFrom, if_pos h]

/-- An open line takes the lines of the next group along. -/
theorem logicalFrom_cons_of_open (h : r.readLine line ≠ .fresh) :
    logicalFrom r (line :: lines) =
      (line :: (logicalFrom (r.readLine line) lines).head?.getD []) ::
        (logicalFrom (r.readLine line) lines).tail := by
  rw [logicalFrom, if_neg h]
  cases logicalFrom (r.readLine line) lines <;> rfl

/-- The logical lines hold the lines of the source in order. -/
theorem flatten_logicalFrom (r : LineState) (lines : List (List Char)) :
    (logicalFrom r lines).flatten = lines := by
  induction lines generalizing r with
  | nil => rfl
  | cons line rest ih =>
    by_cases h : r.readLine line = .fresh
    · rw [logicalFrom_cons_of_fresh h, List.flatten_cons, ih, List.singleton_append]
    · have hrest := ih (r.readLine line)
      rw [logicalFrom_cons_of_open h, List.flatten_cons]
      cases hgroups : logicalFrom (r.readLine line) rest with
      | nil =>
        rw [hgroups] at hrest
        simpa using hrest
      | cons group groups =>
        rw [hgroups, List.flatten_cons] at hrest
        simpa using hrest

/-- Lines that are read alike belong together alike. -/
theorem logicalFrom_map {change : List Char → List Char}
    (hchange : ∀ r : LineState, r.AtStart →
      ∀ line ∈ lines, r.readLine (change line) = r.readLine line) (hr : r.AtStart) :
    logicalFrom r (lines.map change) = (logicalFrom r lines).map (List.map change) := by
  induction lines generalizing r with
  | nil => rfl
  | cons line rest ih =>
    have hline := hchange r hr line List.mem_cons_self
    have hrest := fun r hr l hl => hchange r hr l (List.mem_cons_of_mem line hl)
    rw [List.map_cons]
    by_cases h : r.readLine line = .fresh
    · rw [logicalFrom_cons_of_fresh h, logicalFrom_cons_of_fresh (hline.trans h),
        ih hrest LineState.fresh_atStart]
      rfl
    · rw [logicalFrom_cons_of_open h, logicalFrom_cons_of_open (hline ▸ h), hline,
        ih hrest (r.readLine_atStart line)]
      cases logicalFrom (r.readLine line) rest <;> rfl

end FlowScript.Source
