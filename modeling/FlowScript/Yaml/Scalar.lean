import FlowScript.Text.Hex
import FlowScript.Yaml.Token

/-!
# Written scalars

Reading the four ways of writing a scalar: plain, between quotes, and as a literal or folded block.
Line breaks inside a scalar are folded: a single break becomes a space and of several the first is
dropped, except in literal blocks.
-/

namespace FlowScript.Yaml

/-- The line breaks and blanks between two pieces of a scalar. -/
structure Gap where
  /-- Blanks on the line of the first piece. -/
  blanks : List Char := []
  /-- The first line break. -/
  first : Option Char := none
  /-- The other line breaks. -/
  more : List Char := []

/-- What a gap stands for in the text of a scalar. -/
def Gap.folded (g : Gap) : List Char :=
  match g.first with
  | none => g.blanks
  | some b =>
    if b == '\n' then if g.more.isEmpty then [' '] else g.more
    else b :: g.more

/-- Reads blanks and line breaks. In a block, a tab left of the indentation is refused. -/
def readGap (minColumn : Option Nat) : Nat → Gap → Cursor → Except Fault (Gap × Cursor)
  | 0, g, c => .ok (g, c)
  | fuel + 1, g, c =>
    match c.rest with
    | [] => .ok (g, c)
    | ch :: _ =>
      if isBlank ch then
        if ch == '\t' && g.first.isSome && minColumn.any (fun m => c.column < m) then
          .error ⟨"found a tab character that violates indentation"⟩
        else
          let g := if g.first.isNone then { g with blanks := g.blanks ++ [ch] } else g
          readGap minColumn fuel g c.next
      else if isBreak ch then
        let g :=
          if g.first.isNone then { g with blanks := [], first := some ch }
          else { g with more := g.more ++ [ch] }
        readGap minColumn fuel g c.next
      else .ok (g, c)

/-- An indicator that ends a plain scalar inside brackets. -/
def isFlowIndicator (c : Char) : Bool :=
  c == ',' || c == '?' || c == '[' || c == ']' || c == '\x7b' || c == '\x7d'

/-- Reads a run of characters of a plain scalar on one line, in reverse. -/
def readPlainRun (inFlow : Bool) : Nat → List Char → Cursor → List Char × Cursor
  | 0, acc, c => (acc, c)
  | fuel + 1, acc, c =>
    match c.rest with
    | [] => (acc, c)
    | ch :: _ =>
      if isBlank ch || isBreak ch || (ch == ':' && c.gapAt 1) || (inFlow && isFlowIndicator ch) then
        (acc, c)
      else readPlainRun inFlow fuel (ch :: acc) c.next

/-- Reads a plain scalar: its text in reverse, whether it was followed by a line break, and the
cursor. `minColumn` is the least column of its lines outside of brackets. -/
def readPlain (inFlow : Bool) (minColumn : Nat) :
    Nat → List Char → Gap → Cursor → Except Fault (List Char × Bool × Cursor)
  | 0, acc, g, c => .ok (acc, g.first.isSome, c)
  | fuel + 1, acc, g, c =>
    if c.atDocumentMark || c.looksAt '#' then .ok (acc, g.first.isSome, c)
    else
      let (run, after) := readPlainRun inFlow c.rest.length [] c
      let (acc, g) := if run.isEmpty then (acc, g) else (run ++ g.folded.reverse ++ acc, {})
      if after.atBlank || after.atBreak then
        match readGap (some minColumn) after.rest.length g after with
        | .error e => .error e
        | .ok (g, after) =>
          if !inFlow && after.column < minColumn then .ok (acc, g.first.isSome, after)
          else readPlain inFlow minColumn fuel acc g after
      else .ok (acc, g.first.isSome, after)

/-- The character of a short escape. -/
def escaped? (c : Char) : Option Char :=
  match c with
  | '0' => some '\x00'
  | 'a' => some '\x07'
  | 'b' => some '\x08'
  | 't' => some '\t'
  | '\t' => some '\t'
  | 'n' => some '\n'
  | 'v' => some '\x0b'
  | 'f' => some '\x0c'
  | 'r' => some '\r'
  | 'e' => some '\x1b'
  | ' ' => some ' '
  | '"' => some '"'
  | '\'' => some '\''
  | '/' => some '/'
  | '\\' => some '\\'
  | 'N' => some '\u0085'
  | '_' => some '\u00a0'
  | 'L' => some '\u2028'
  | 'P' => some '\u2029'
  | _ => none

/-- The number of hexadecimal digits of a long escape. -/
def escapeLength? (c : Char) : Option Nat :=
  match c with
  | 'x' => some 2
  | 'u' => some 4
  | 'U' => some 8
  | _ => none

/-- The value of hexadecimal digits. -/
def hexNumber? (cs : List Char) : Option Nat :=
  cs.foldl (fun n c => do return (← n) * 16 + (← Text.hexValue? c)) (some 0)

/-- Reads one escape after its backslash: the character and the cursor after it. -/
def readEscape (c : Cursor) : Except Fault (Char × Cursor) :=
  match c.rest with
  | [] => .error ⟨"found unexpected end of stream"⟩
  | ch :: rest =>
    match escaped? ch with
    | some e => .ok (e, c.next)
    | none =>
      match escapeLength? ch with
      | none => .error ⟨"found unknown escape character"⟩
      | some n =>
        let digits := rest.take n
        match hexNumber? digits with
        | none => .error ⟨"did not find expected hexadecimal number"⟩
        | some value =>
          if digits.length < n then .error ⟨"did not find expected hexadecimal number"⟩
          else if (0xD800 ≤ value && value ≤ 0xDFFF) || 0x10FFFF < value then
            .error ⟨"found invalid Unicode character escape code"⟩
          else .ok (Char.ofNat value, c.skip (n + 1))

/-- What stopped a run of characters between quotes. -/
inductive RunEnd where
  /-- A blank, a line break, a quote or the end of the text. -/
  | here
  /-- A backslash at the end of a line. -/
  | escapedBreak

/-- Reads a run of characters between quotes, in reverse. -/
def readQuotedRun (quote : Char) :
    Nat → List Char → Cursor → Except Fault (List Char × RunEnd × Cursor)
  | 0, acc, c => .ok (acc, .here, c)
  | fuel + 1, acc, c =>
    match c.rest with
    | [] => .ok (acc, .here, c)
    | ch :: rest =>
      if isBlank ch || isBreak ch then .ok (acc, .here, c)
      else if ch == quote then
        if quote == '\'' && rest.head? == some '\'' then
          readQuotedRun quote fuel ('\'' :: acc) (c.skip 2)
        else .ok (acc, .here, c)
      else if quote == '"' && ch == '\\' then
        if c.next.atBreak then .ok (acc, .escapedBreak, c.skip 2)
        else
          match readEscape c.next with
          | .error e => .error e
          | .ok (e, after) => readQuotedRun quote fuel (e :: acc) after
      else readQuotedRun quote fuel (ch :: acc) c.next

/-- Reads the rest of a scalar between quotes: its text in reverse and the cursor after the closing
quote. -/
def readQuoted (quote : Char) : Nat → List Char → Cursor → Except Fault (List Char × Cursor)
  | 0, _, _ => .error ⟨"found unexpected end of stream"⟩
  | fuel + 1, acc, c =>
    if c.atDocumentMark then .error ⟨"found unexpected document indicator"⟩
    else if c.atEnd then .error ⟨"found unexpected end of stream"⟩
    else
      match readQuotedRun quote c.rest.length acc c with
      | .error e => .error e
      | .ok (acc, .here, after) =>
        if after.looksAt quote then .ok (acc, after.next)
        else
          match readGap none after.rest.length {} after with
          | .error e => .error e
          | .ok (g, after) => readQuoted quote fuel (g.folded.reverse ++ acc) after
      | .ok (acc, .escapedBreak, after) =>
        -- the break itself counts for nothing, and blanks that start the next line are dropped
        match readGap none after.rest.length { first := some '\u0000' } after with
        | .error e => .error e
        | .ok (g, after) => readQuoted quote fuel (g.more.reverse ++ acc) after

/-- What happens to the line breaks at the end of a block. -/
inductive Chomp where
  | strip
  | clip
  | keep
  deriving DecidableEq

/-- The header of a block: how it ends and how far it is indented, if that is said. -/
def readBlockHeader (c : Cursor) : Except Fault (Chomp × Nat × Cursor) :=
  let chompOf (ch : Char) : Option Chomp :=
    if ch == '+' then some .keep else if ch == '-' then some .strip else none
  let digitOf (ch : Char) : Option Nat := if Text.isDigit ch then some (ch.toNat - 48) else none
  let indentOf (n : Nat) (chomp : Chomp) (c : Cursor) : Except Fault (Chomp × Nat × Cursor) :=
    if n = 0 then .error ⟨"found an indentation indicator equal to 0"⟩ else .ok (chomp, n, c)
  match c.rest with
  | a :: b :: _ =>
    match chompOf a, digitOf a with
    | some chomp, _ =>
      match digitOf b with
      | some n => indentOf n chomp (c.skip 2)
      | none => .ok (chomp, 0, c.next)
    | none, some n =>
      match chompOf b with
      | some chomp => indentOf n chomp (c.skip 2)
      | none => indentOf n .clip c.next
    | none, none => .ok (.clip, 0, c)
  | [a] =>
    match chompOf a, digitOf a with
    | some chomp, _ => .ok (chomp, 0, c.next)
    | none, some n => indentOf n .clip c.next
    | none, none => .ok (.clip, 0, c)
  | [] => .ok (.clip, 0, c)

/-- Reads the spaces that indent a line, up to column `indent`; zero stands for all of them. -/
def readIndent (indent : Nat) : Nat → Cursor → Cursor
  | 0, c => c
  | fuel + 1, c =>
    if (indent = 0 || c.column < indent) && c.looksAt ' ' then readIndent indent fuel c.next else c

/-- Reads empty lines and the indentation of the line after them: the line breaks, the widest
indentation and the cursor. -/
def readBlockBreaks (indent : Nat) :
    Nat → List Char → Nat → Cursor → Except Fault (List Char × Nat × Cursor)
  | 0, acc, widest, c => .ok (acc, widest, c)
  | fuel + 1, acc, widest, c =>
    let c := readIndent indent c.rest.length c
    let widest := max widest c.column
    if (indent = 0 || c.column < indent) && c.looksAt '\t' then
      .error ⟨"found a tab character where an indentation space is expected"⟩
    else
      match c.rest with
      | ch :: _ =>
        if isBreak ch then readBlockBreaks indent fuel (acc ++ [ch]) widest c.next
        else .ok (acc, widest, c)
      | [] => .ok (acc, widest, c)

/-- The state of reading a block: its text in reverse, the break that ended the last line, the empty
lines after it, and whether that line started with a blank. -/
structure BlockState where
  text : List Char := []
  lastBreak : List Char := []
  empty : List Char := []
  startedBlank : Bool := false

/-- Reads the lines of a block. -/
def readBlockLines (folded : Bool) (indent : Nat) :
    Nat → BlockState → Cursor → Except Fault (BlockState × Cursor)
  | 0, s, c => .ok (s, c)
  | fuel + 1, s, c =>
    if c.column == indent && !c.atEnd then
      let startsBlank := c.atBlank
      let joined :=
        if folded && !s.startedBlank && !startsBlank && s.lastBreak == ['\n'] then
          if s.empty.isEmpty then [' '] else []
        else s.lastBreak
      let (line, after) := c.takeWhile (fun ch => !isBreak ch)
      let text := line.reverse ++ s.empty.reverse ++ joined.reverse ++ s.text
      let (lastBreak, after) :=
        match after.rest with
        | ch :: _ => ([ch], after.next)
        | [] => ([], after)
      match readBlockBreaks indent after.rest.length [] 0 after with
      | .error e => .error e
      | .ok (empty, _, after) =>
        readBlockLines folded indent fuel ⟨text, lastBreak, empty, startsBlank⟩ after
    else .ok (s, c)

/-- Reads a block scalar after its indicator. `parent` is the indentation around it. -/
def readBlock (folded : Bool) (parent : Int) (c : Cursor) : Except Fault (List Char × Cursor) := do
  let (chomp, increment, c) ← readBlockHeader c
  let (_, c) := c.takeWhile isBlank
  let c := if c.looksAt '#' then (c.takeWhile (fun ch => !isBreak ch)).2 else c
  if !c.atEnd && !c.atBreak then throw ⟨"did not find expected comment or line break"⟩
  let c := c.next
  let given := if increment = 0 then 0 else parent.toNat + increment
  let (breaks, widest, c) ← readBlockBreaks given c.rest.length [] 0 c
  let indent := if given = 0 then max (max widest (parent + 1).toNat) 1 else given
  let (s, c) ← readBlockLines folded indent (c.rest.length + 1) { empty := breaks } c
  let tail :=
    match chomp with
    | .strip => []
    | .clip => s.lastBreak
    | .keep => s.lastBreak ++ s.empty
  return (s.text.reverse ++ tail, c)

end FlowScript.Yaml
