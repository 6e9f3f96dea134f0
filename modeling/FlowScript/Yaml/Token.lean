/-!
# Tokens of YAML

The tokens of a YAML text and the cursor that walks over it. Indentation shows in the tokens as
starts and ends of blocks.
-/

namespace FlowScript.Yaml

/-- Why a text is not YAML, or not of the wanted shape. -/
structure Fault where
  message : String

/-- How a scalar is written. -/
inductive Style where
  | plain
  | quoted
  | block
  deriving DecidableEq

/-- A token. -/
inductive Token where
  | streamEnd
  | version (major minor : Nat)
  | tagHandle (handle stem : String)
  | documentStart
  | documentEnd
  | blockSequenceStart
  | blockMappingStart
  | blockEnd
  | flowSequenceStart
  | flowSequenceEnd
  | flowMappingStart
  | flowMappingEnd
  | blockEntry
  | flowEntry
  | key
  | value
  | alias (name : String)
  | anchor (name : String)
  | tag (handle suffix : String)
  | scalar (text : List Char) (style : Style)
  deriving DecidableEq

/-- A character that ends a line. Carriage returns and next-line characters have been made line feeds
before. -/
def isBreak (c : Char) : Bool :=
  c == '\n' || c == '\u2028' || c == '\u2029'

/-- A space or a tab. -/
def isBlank (c : Char) : Bool :=
  c == ' ' || c == '\t'

/-- A place in a text. -/
structure Cursor where
  rest : List Char
  line : Nat := 0
  column : Nat := 0
  index : Nat := 0

namespace Cursor

/-- The character at the given distance. -/
def at? (c : Cursor) (n : Nat) : Option Char :=
  c.rest[n]?

/-- The cursor stands at this character. -/
def looksAt (c : Cursor) (ch : Char) : Bool :=
  c.rest.head? == some ch

/-- At the given distance there is a blank, a line break or the end. -/
def gapAt (c : Cursor) (n : Nat) : Bool :=
  match c.at? n with
  | none => true
  | some ch => isBlank ch || isBreak ch

/-- The cursor stands at a blank. -/
def atBlank (c : Cursor) : Bool :=
  match c.rest with
  | ch :: _ => isBlank ch
  | [] => false

/-- The cursor stands at a line break. -/
def atBreak (c : Cursor) : Bool :=
  match c.rest with
  | ch :: _ => isBreak ch
  | [] => false

/-- The cursor stands at the end of the text. -/
def atEnd (c : Cursor) : Bool :=
  c.rest.isEmpty

/-- The cursor after one character. -/
def next (c : Cursor) : Cursor :=
  match c.rest with
  | [] => c
  | ch :: rest =>
    if isBreak ch then ⟨rest, c.line + 1, 0, c.index + 1⟩
    else ⟨rest, c.line, c.column + 1, c.index + 1⟩

/-- The cursor after `n` characters. -/
def skip : Nat → Cursor → Cursor
  | 0, c => c
  | n + 1, c => skip n c.next

/-- Reads the characters that satisfy `p`. -/
def takeWhile (p : Char → Bool) (c : Cursor) : List Char × Cursor :=
  let taken := c.rest.takeWhile p
  (taken, c.skip taken.length)

/-- At the start of a line stands the given mark of three characters and then a gap. -/
def atMark (c : Cursor) (mark : Char) : Bool :=
  c.column == 0 && c.rest.take 3 == [mark, mark, mark] && c.gapAt 3

/-- At the start of a line stands a mark that starts or ends a document. -/
def atDocumentMark (c : Cursor) : Bool :=
  c.atMark '-' || c.atMark '.'

end Cursor

/-- A character that a text may hold. -/
def isAllowed (c : Char) : Bool :=
  let n := c.toNat
  n == 0x09 || n == 0x0A || n == 0x0D || (0x20 ≤ n && n ≤ 0x7E) || n == 0x85
    || (0xA0 ≤ n && n ≤ 0xD7FF) || (0xE000 ≤ n && n ≤ 0xFFFD) || 0x10000 ≤ n

/-- Every line break but the two Unicode separators becomes a line feed. -/
def normalBreaks : List Char → List Char
  | [] => []
  | [c] => [if c == '\r' || c == '\u0085' then '\n' else c]
  | c :: d :: rest =>
    if c == '\r' && d == '\n' then '\n' :: normalBreaks rest
    else (if c == '\r' || c == '\u0085' then '\n' else c) :: normalBreaks (d :: rest)

end FlowScript.Yaml
