import FlowScript.Yaml.Scalar

/-!
# The tokens of a text

The lexer keeps the indentation of the open blocks and, for every level of brackets, the place where
a key may have started. A colon after such a place turns what stands there into a key, and the token
for it is put in front after the fact.
-/

namespace FlowScript.Yaml

/-- A token that may turn out to be a key. -/
structure Candidate where
  /-- A key has to follow, since nothing else can start a line at this indentation. -/
  required : Bool
  /-- The number of tokens before it. -/
  place : Nat
  line : Nat
  column : Nat
  index : Nat

/-- The state of the lexer. -/
structure Lexer where
  cursor : Cursor
  tokens : Array Token := #[]
  /-- The number of open brackets. -/
  flow : Nat := 0
  /-- The indentation of the innermost block, -1 outside of all blocks. -/
  indent : Int := -1
  /-- The indentations of the blocks around it. -/
  outer : List Int := []
  /-- A key may start here. -/
  keyAllowed : Bool := true
  /-- The candidate of the current level of brackets and of those around it. -/
  candidates : List (Option Candidate) := [none]
  finished : Bool := false

namespace Lexer

/-- Adds a token. -/
def emit (l : Lexer) (t : Token) : Lexer :=
  { l with tokens := l.tokens.push t }

/-- Puts a token in front of the one with the given number. -/
def emitAt (l : Lexer) (place : Nat) (t : Token) : Lexer :=
  { l with tokens := l.tokens.extract 0 place ++ #[t] ++ l.tokens.extract place l.tokens.size }

/-- Closes blocks until the indentation is at most `column`. -/
def unroll (column : Int) : Nat → Lexer → Lexer
  | 0, l => l
  | fuel + 1, l =>
    if l.flow == 0 && column < l.indent then
      let (indent, outer) :=
        match l.outer with
        | [] => (-1, [])
        | i :: rest => (i, rest)
      unroll column fuel ({ l with indent := indent, outer := outer }.emit .blockEnd)
    else l

/-- Closes blocks until the indentation is at most `column`. -/
def closeBlocks (l : Lexer) (column : Int) : Lexer :=
  l.unroll column (l.outer.length + 1)

/-- How many blocks, and how many brackets, may be open at once. -/
def nestingLimit : Nat := 10000

/-- What is wrong with a text that nests deeper than that. -/
def nestingFault : Fault := ⟨"exceeded max depth of 10000"⟩

/-- Opens a block at `column` if it is further in; its token stands at `place`, or at the end. -/
def openBlock (l : Lexer) (column : Nat) (place : Option Nat) (t : Token) : Except Fault Lexer :=
  if l.flow == 0 && l.indent < column then
    let l := { l with outer := l.indent :: l.outer, indent := column }
    if nestingLimit < l.outer.length then .error nestingFault
    else
      match place with
      | none => .ok (l.emit t)
      | some n => .ok (l.emitAt n t)
  else .ok l

/-- Forgets the candidate of the current level; one that is required is missed. -/
def dropCandidate (l : Lexer) : Except Fault Lexer :=
  match l.candidates with
  | some k :: rest =>
    if k.required then .error ⟨"could not find expected ':'"⟩
    else .ok { l with candidates := none :: rest }
  | _ => .ok l

/-- Remembers that the next token may be a key. -/
def saveCandidate (l : Lexer) : Except Fault Lexer :=
  if l.keyAllowed then do
    let l ← l.dropCandidate
    let k : Candidate :=
      { required := l.flow == 0 && l.indent == l.cursor.column
        place := l.tokens.size, line := l.cursor.line, column := l.cursor.column
        index := l.cursor.index }
    return { l with candidates := some k :: l.candidates.drop 1 }
  else return l

/-- The candidate of the current level, if a colon here would still make it a key. -/
def validCandidate (l : Lexer) : Except Fault (Option Candidate) :=
  match l.candidates with
  | some k :: _ =>
    if k.line < l.cursor.line || k.index + 1024 < l.cursor.index then
      if k.required then .error ⟨"could not find expected ':'"⟩ else .ok none
    else .ok (some k)
  | _ => .ok none

/-- Skips blanks, comments and line breaks in front of the next token. -/
def skipGap : Nat → Lexer → Lexer
  | 0, l => l
  | fuel + 1, l =>
    let c := l.cursor
    match c.rest with
    | [] => l
    | ch :: _ =>
      if c.column == 0 && ch == '\ufeff' then skipGap fuel { l with cursor := c.next }
      else if ch == ' ' || (ch == '\t' && (l.flow > 0 || !l.keyAllowed)) then
        skipGap fuel { l with cursor := c.next }
      else if ch == '#' then
        skipGap fuel { l with cursor := (c.takeWhile (fun d => !isBreak d)).2 }
      else if isBreak ch then
        skipGap fuel { l with cursor := c.next, keyAllowed := l.keyAllowed || l.flow == 0 }
      else l

/-- An indicator of the given length. -/
def indicator (l : Lexer) (length : Nat) (t : Token) : Lexer :=
  { l with cursor := l.cursor.skip length }.emit t

/-- The end of the text. -/
def endStream (l : Lexer) : Except Fault Lexer := do
  let l := l.closeBlocks (-1)
  let l ← l.dropCandidate
  return { l with keyAllowed := false, finished := true }.emit .streamEnd

/-- A mark that starts or ends a document. -/
def documentMark (l : Lexer) (t : Token) : Except Fault Lexer := do
  let l := l.closeBlocks (-1)
  let l ← l.dropCandidate
  return { l with keyAllowed := false }.indicator 3 t

/-- A letter, a digit, an underscore or a hyphen. -/
def isNameChar (c : Char) : Bool :=
  ('a' ≤ c && c ≤ 'z') || ('A' ≤ c && c ≤ 'Z') || Text.isDigit c || c == '_' || c == '-'

/-- A directive: the version of the format, or a handle for tags. -/
def directive (l : Lexer) : Except Fault Lexer := do
  let l := l.closeBlocks (-1)
  let l ← l.dropCandidate
  let l := { l with keyAllowed := false }
  let (name, c) := l.cursor.next.takeWhile isNameChar
  if name.isEmpty then throw ⟨"could not find expected directive name"⟩
  if !c.gapAt 0 then throw ⟨"found unexpected non-alphabetical character"⟩
  let (_, c) := c.takeWhile isBlank
  let (token, c) ←
    if name == "YAML".toList then do
      let (major, c) := c.takeWhile Text.isDigit
      if major.isEmpty || 9 < major.length || !c.looksAt '.' then
        throw ⟨"did not find expected digit or '.' character"⟩
      let (minor, c) := c.next.takeWhile Text.isDigit
      if minor.isEmpty || 9 < minor.length then
        throw ⟨"did not find expected version number"⟩
      pure (Token.version (Text.digitsValue major) (Text.digitsValue minor), c)
    else if name == "TAG".toList then do
      let (handle, c) := c.takeWhile (fun ch => isNameChar ch || ch == '!')
      let shaped := handle == ['!'] ||
        (2 ≤ handle.length && handle.head? == some '!' && handle.getLast? == some '!')
      if !shaped || !c.atBlank then throw ⟨"did not find expected tag handle"⟩
      let (_, c) := c.takeWhile isBlank
      let (stem, c) := c.takeWhile (fun ch => !isBlank ch && !isBreak ch)
      if stem.isEmpty then throw ⟨"did not find expected tag URI"⟩
      pure (Token.tagHandle (String.ofList handle) (String.ofList stem), c)
    else throw ⟨"found unknown directive name"⟩
  let (_, c) := c.takeWhile isBlank
  let c := if c.looksAt '#' then (c.takeWhile (fun ch => !isBreak ch)).2 else c
  if !c.atEnd && !c.atBreak then throw ⟨"did not find expected comment or line break"⟩
  return { l with cursor := c.next }.emit token

/-- An opening bracket. -/
def openFlow (l : Lexer) (t : Token) : Except Fault Lexer := do
  let l ← l.saveCandidate
  if nestingLimit ≤ l.flow then throw nestingFault
  return { l with
    candidates := none :: l.candidates, flow := l.flow + 1, keyAllowed := true }.indicator 1 t

/-- A closing bracket. -/
def closeFlow (l : Lexer) (t : Token) : Except Fault Lexer := do
  let l ← l.dropCandidate
  let candidates := if l.flow == 0 then l.candidates else l.candidates.drop 1
  return { l with
    candidates := candidates, flow := l.flow - 1, keyAllowed := false }.indicator 1 t

/-- A comma inside brackets. -/
def flowEntry (l : Lexer) : Except Fault Lexer := do
  let l ← l.dropCandidate
  return { l with keyAllowed := true }.indicator 1 .flowEntry

/-- A hyphen that starts an item. -/
def blockEntry (l : Lexer) : Except Fault Lexer := do
  if l.flow == 0 && !l.keyAllowed then
    throw ⟨"block sequence entries are not allowed in this context"⟩
  let l ← l.openBlock l.cursor.column none .blockSequenceStart
  let l ← l.dropCandidate
  return { l with keyAllowed := true }.indicator 1 .blockEntry

/-- A question mark that starts a key. -/
def explicitKey (l : Lexer) : Except Fault Lexer := do
  if l.flow == 0 && !l.keyAllowed then
    throw ⟨"mapping keys are not allowed in this context"⟩
  let l ← l.openBlock l.cursor.column none .blockMappingStart
  let l ← l.dropCandidate
  return { l with keyAllowed := l.flow == 0 }.indicator 1 .key

/-- A colon that starts a value, after a simple key or after an explicit one. -/
def colon (l : Lexer) : Except Fault Lexer := do
  match ← l.validCandidate with
  | some k =>
    let l := l.emitAt k.place .key
    let l ← l.openBlock k.column (some k.place) .blockMappingStart
    return { l with
      candidates := none :: l.candidates.drop 1, keyAllowed := false }.indicator 1 .value
  | none =>
    if l.flow == 0 && !l.keyAllowed then
      throw ⟨"mapping values are not allowed in this context"⟩
    let l := { l with candidates := none :: l.candidates.drop 1 }
    let l ← l.openBlock l.cursor.column none .blockMappingStart
    return { l with keyAllowed := l.flow == 0 }.indicator 1 .value

/-- The name after the sign of an anchor or an alias. -/
def anchorName (l : Lexer) (make : String → Token) : Except Fault Lexer := do
  let l ← l.saveCandidate
  let (name, c) := l.cursor.next.takeWhile isNameChar
  let ends :=
    c.gapAt 0 ||
      match c.rest with
      | ch :: _ => ['?', ':', ',', ']', '\x7d', '%', '@', '\x60'].contains ch
      | [] => true
  if name.isEmpty || !ends then
    throw ⟨"did not find expected alphabetic or numeric character"⟩
  return { l with keyAllowed := false, cursor := c }.emit (make (String.ofList name))

/-- A character of a tag. -/
def isTagChar (c : Char) : Bool :=
  isNameChar c || [';', '/', '?', ':', '@', '&', '=', '+', '$', '.', '!', '~', '*', '\'', '(', ')',
    '%', ',', '[', ']'].contains c

/-- A tag: verbatim, with a handle, or short. -/
def tag (l : Lexer) : Except Fault Lexer := do
  let l ← l.saveCandidate
  let c := l.cursor
  let (token, c) ←
    if c.at? 1 == some '<' then do
      let (uri, c) := (c.skip 2).takeWhile isTagChar
      if uri.isEmpty || !c.looksAt '>' then throw ⟨"did not find the expected '>'"⟩
      pure (Token.tag "" (String.ofList uri), c.next)
    else do
      let (name, after) := c.next.takeWhile isNameChar
      if after.looksAt '!' then
        let (suffix, after) := after.next.takeWhile isTagChar
        if suffix.isEmpty then throw ⟨"did not find expected tag URI"⟩
        pure (Token.tag (String.ofList ('!' :: (name ++ ['!']))) (String.ofList suffix), after)
      else
        let (suffix, after) := c.next.takeWhile isTagChar
        if suffix.isEmpty then pure (Token.tag "" "!", after)
        else pure (Token.tag "!" (String.ofList suffix), after)
  if !c.gapAt 0 then throw ⟨"did not find expected whitespace or line break"⟩
  return { l with keyAllowed := false, cursor := c }.emit token

/-- A literal or folded block. -/
def blockScalar (l : Lexer) (folded : Bool) : Except Fault Lexer := do
  let l ← l.dropCandidate
  let (text, c) ← readBlock folded l.indent l.cursor.next
  return { l with keyAllowed := true, cursor := c }.emit (.scalar text .block)

/-- A scalar between quotes. -/
def quotedScalar (l : Lexer) (quote : Char) : Except Fault Lexer := do
  let l ← l.saveCandidate
  let c := l.cursor.next
  let (text, c) ← readQuoted quote (c.rest.length + 1) [] c
  return { l with keyAllowed := false, cursor := c }.emit (.scalar text.reverse .quoted)

/-- A plain scalar. -/
def plainScalar (l : Lexer) : Except Fault Lexer := do
  let l ← l.saveCandidate
  let c := l.cursor
  let (text, broke, c) ←
    readPlain (l.flow > 0) (l.indent + 1).toNat (c.rest.length + 1) [] {} c
  return { l with keyAllowed := broke, cursor := c }.emit (.scalar text.reverse .plain)

/-- A character that cannot start a plain scalar without further ado. -/
def isIndicator (c : Char) : Bool :=
  ['-', '?', ':', ',', '[', ']', '\x7b', '\x7d', '#', '&', '*', '!', '|', '>', '\'', '"', '%', '@',
    '\x60'].contains c

/-- The next token. -/
def step (l : Lexer) : Except Fault Lexer :=
  let l := skipGap (l.cursor.rest.length + 1) l
  let l := l.closeBlocks l.cursor.column
  let c := l.cursor
  match c.rest with
  | [] => l.endStream
  | ch :: _ =>
    if c.column == 0 && ch == '%' then l.directive
    else if c.atMark '-' then l.documentMark .documentStart
    else if c.atMark '.' then l.documentMark .documentEnd
    else if ch == '[' then l.openFlow .flowSequenceStart
    else if ch == '\x7b' then l.openFlow .flowMappingStart
    else if ch == ']' then l.closeFlow .flowSequenceEnd
    else if ch == '\x7d' then l.closeFlow .flowMappingEnd
    else if ch == ',' then l.flowEntry
    else if ch == '-' && c.gapAt 1 then l.blockEntry
    else if ch == '?' && (l.flow > 0 || c.gapAt 1) then l.explicitKey
    else if ch == ':' && (l.flow > 0 || c.gapAt 1) then l.colon
    else if ch == '*' then l.anchorName .alias
    else if ch == '&' then l.anchorName .anchor
    else if ch == '!' then l.tag
    else if ch == '|' && l.flow == 0 then l.blockScalar false
    else if ch == '>' && l.flow == 0 then l.blockScalar true
    else if ch == '\'' || ch == '"' then l.quotedScalar ch
    else if (!isIndicator ch && !isBlank ch)
        || (ch == '-' && !(c.at? 1).any isBlank)
        || (l.flow == 0 && (ch == '?' || ch == ':') && !c.gapAt 1) then l.plainScalar
    else .error ⟨"found character that cannot start any token"⟩

/-- Runs the lexer to the end of the text or to the first fault. -/
def run : Nat → Lexer → Lexer × Option Fault
  | 0, l => (l, none)
  | fuel + 1, l =>
    if l.finished then (l, none)
    else
      match l.step with
      | .ok next => run fuel next
      | .error fault => (l, some fault)

end Lexer

/-- The tokens of a text up to its end or to the first fault. -/
def tokens (text : List Char) : List Token × Option Fault :=
  if text.all isAllowed then
    let text := normalBreaks text
    let text :=
      match text with
      | c :: rest => if c == '\ufeff' then rest else text
      | [] => []
    let (l, fault) := Lexer.run (text.length + 2) { cursor := { rest := text } }
    (l.tokens.toList, fault)
  else ([], some ⟨"control characters are not allowed"⟩)

end FlowScript.Yaml
