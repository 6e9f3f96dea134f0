import FlowScript.Json.Value
import FlowScript.Text.Blank
import FlowScript.Text.Letter
import FlowScript.Yaml.Data

/-!
# Writing YAML

JSON data as a YAML document in block style, two spaces per level. Keys are sorted so that numbers
inside them count as numbers. A text is written plainly where that reads back as the same text, as a
literal block when it has several lines, and between quotes otherwise.
-/

namespace FlowScript.Yaml

open Text

/-- Words that older versions of the format read as truth values. -/
def isOldBool (s : String) : Bool :=
  ["y", "Y", "yes", "Yes", "YES", "on", "On", "ON", "n", "N", "no", "No", "NO", "off", "Off",
    "OFF"].contains s

/-- One group of a number in base sixty: one or two digits, the first at most five of two. -/
def isSixtyGroup (cs : List Char) : Bool :=
  match cs with
  | [a] => isDigit a
  | [a, b] => '0' ≤ a && a ≤ '5' && isDigit b
  | _ => false

/-- A number in base sixty, which older versions of the format know: digits, groups after colons and
an optional fraction. -/
def isSixty (cs : List Char) : Bool :=
  let cs :=
    match cs with
    | c :: rest => if c == '+' || c == '-' then rest else cs
    | [] => []
  let isDigitOrMark (c : Char) : Bool := isDigit c || c == '_'
  match FlowScript.Text.cut ':' cs with
  | first :: groups =>
    match groups.reverse with
    | [] => false
    | last :: middle =>
      let whole := last.takeWhile (· != '.')
      let part := last.dropWhile (· != '.')
      first.head?.any isDigit && first.all isDigitOrMark && middle.all isSixtyGroup
        && isSixtyGroup whole && (part.drop 1).all isDigitOrMark
  | [] => false

/-- A plain scalar with this text would be read as the same text, now and in the past. -/
def readsAsText (cs : List Char) : Bool :=
  (Atom.ofPlain cs).tag == "!!str" && !isSixty cs && !isOldBool (String.ofList cs)

/-- A character that may stand in a scalar as it is. -/
def isShown (c : Char) : Bool :=
  let n := c.toNat
  n == 0x0A || (0x20 ≤ n && n ≤ 0x7E) || (0xA0 ≤ n && n < 0xD800)
    || (0xE000 ≤ n && n ≤ 0xFFFD && n != 0xFEFF)

/-- A character that is a line break in scalars. -/
def isScalarBreak (c : Char) : Bool :=
  isBreak c || c == '\r' || c == '\u0085'

/-- What a text allows as its style. -/
structure Traits where
  multiline : Bool := false
  plain : Bool := true
  single : Bool := true
  block : Bool := true

/-- Neighbouring characters of a text, the second satisfying `q` right after one satisfying `p`. -/
def hasPair (p q : Char → Bool) : List Char → Bool
  | a :: b :: rest => (p a && q b) || hasPair p q (b :: rest)
  | _ => false

/-- An indicator that a plain scalar in a block may not start with. -/
def startsUnsafe (cs : List Char) : Bool :=
  match cs with
  | [] => false
  | c :: rest =>
    let gap :=
      match rest with
      | [] => true
      | d :: _ => isBlank d
    ['#', ',', '[', ']', '\x7b', '\x7d', '&', '*', '!', '|', '>', '\'', '"', '%', '@',
      '\x60'].contains c || ((c == '?' || c == ':' || c == '-') && gap)

/-- The styles that the characters of a text allow outside of brackets. -/
def Traits.of (cs : List Char) : Traits :=
  if cs.isEmpty then { multiline := false, plain := true, single := true, block := false }
  else
    let space (c : Char) : Bool := c == ' '
    let leading := cs.head?.any (fun c => space c || isScalarBreak c)
    let trailingSpace := cs.getLast?.any space
    let trailingBreak := cs.getLast?.any isScalarBreak
    let breaks := cs.any isScalarBreak
    let breakSpace := hasPair isScalarBreak space cs
    let spaceBreak := hasPair space isScalarBreak cs
    let tabs := cs.contains '\t'
    let special := cs.any (fun c => c != '\t' && !isShown c)
    let marks := startsWith ['-', '-', '-'] cs || startsWith ['.', '.', '.'] cs
    let colons := cs.getLast? == some ':' || hasPair (· == ':') isBlank cs
    let blankBefore (c : Char) : Bool := isBlank c || isScalarBreak c
    let comments := hasPair blankBefore (· == '#') cs
    { multiline := breaks
      plain := !(leading || trailingSpace || trailingBreak || breakSpace || spaceBreak || tabs
        || special || breaks || marks || startsUnsafe cs || colons || comments)
      single := !(breakSpace || spaceBreak || tabs || special)
      block := !(trailingSpace || spaceBreak || special) }

/-- The body of a double-quoted scalar: one character. -/
def doubleChar (c : Char) : List Char :=
  let n := c.toNat
  if isShown c && !isScalarBreak c && c != '"' && c != '\\' then [c]
  else
    '\\' ::
      match n with
      | 0x00 => ['0']
      | 0x07 => ['a']
      | 0x08 => ['b']
      | 0x09 => ['t']
      | 0x0A => ['n']
      | 0x0B => ['v']
      | 0x0C => ['f']
      | 0x0D => ['r']
      | 0x1B => ['e']
      | 0x22 => ['"']
      | 0x5C => ['\\']
      | 0x85 => ['N']
      | 0xA0 => ['_']
      | 0x2028 => ['L']
      | 0x2029 => ['P']
      | n =>
        let digits (width : Nat) : List Char := (hex width n).map Char.toUpper
        if n ≤ 0xFF then 'x' :: digits 2
        else if n ≤ 0xFFFF then 'u' :: digits 4
        else 'U' :: digits 8

/-- A double-quoted scalar. -/
def doubleQuoted (cs : List Char) : List Char :=
  '"' :: (cs.flatMap doubleChar ++ ['"'])

/-- A single-quoted scalar. -/
def singleQuoted (cs : List Char) : List Char :=
  '\'' :: (cs.flatMap (fun c => if c == '\'' then ['\'', '\''] else [c]) ++ ['\''])

/-- The header of a literal block: an indentation that could not be told is given, and how the block
ends. -/
def literalHeader (cs : List Char) : List Char :=
  let indent := if cs.head?.any (fun c => c == ' ' || isScalarBreak c) then ['2'] else []
  let chomp :=
    match cs.reverse with
    | last :: before =>
      if !isScalarBreak last then ['-']
      else
        match before with
        | [] => ['+']
        | c :: _ => if isScalarBreak c then ['+'] else []
    | [] => ['-']
  '|' :: (indent ++ chomp)

/-- The lines of a literal block. `fresh` says that the last character written ended a line. -/
def literalBody (margin : Nat) : (fresh : Bool) → List Char → List Char
  | _, [] => []
  | fresh, c :: rest =>
    if isScalarBreak c then c :: literalBody margin true rest
    else
      (if fresh then List.replicate margin ' ' else []) ++ c :: literalBody margin false rest

/-- A literal block. The header line ends with the first line break of the text, if it starts with
one, or with one of its own. -/
def literalBlock (margin : Nat) (cs : List Char) : List Char :=
  let head := literalHeader cs
  if cs.head?.any isScalarBreak then head ++ literalBody margin true cs
  else head ++ '\n' :: literalBody margin true cs

/-- A text on one line, for a key or where no block can stand. -/
def inlineText (cs : List Char) : List Char :=
  let traits := Traits.of cs
  if cs.contains '\n' then doubleQuoted cs
  else if readsAsText cs && !traits.multiline then
    if traits.plain then cs else if traits.single then singleQuoted cs else doubleQuoted cs
  else doubleQuoted cs

/-- A text as the value of an entry or as an item. `margin` is the indentation of a block. -/
def valueText (margin : Nat) (cs : List Char) : List Char :=
  let traits := Traits.of cs
  if cs.contains '\n' then
    if traits.block then literalBlock margin cs else doubleQuoted cs
  else if readsAsText cs then
    if traits.plain then cs else if traits.single then singleQuoted cs else doubleQuoted cs
  else doubleQuoted cs

/-- The value of the digits at the start of a text, with a value in front of them. -/
def leadingNumber (start : Nat) (cs : List Char) : Nat × Nat :=
  let digits := cs.takeWhile isDecimalDigit
  (digits.foldl (fun n c => n * 10 + (c.toNat - 48)) start, digits.length)

/-- The first key comes before the second. Letters come after other characters, except right after
a digit, and numbers are compared by value. `before` is the common front in reverse. -/
def keyBefore (before : List Char) : List Char → List Char → Bool
  | [], [] => false
  | [], _ :: _ => true
  | _ :: _, [] => false
  | a :: as, b :: bs =>
    if a == b then keyBefore (a :: before) as bs
    else
      let la := isLetter a
      let lb := isLetter b
      if la && lb then a < b
      else if la || lb then
        if before.head?.any isDecimalDigit then la else lb
      else
        let start :=
          if (a == '0' || b == '0') && (before.takeWhile isDecimalDigit).any (· != '0') then 1
          else 0
        let (na, ca) := leadingNumber start (a :: as)
        let (nb, cb) := leadingNumber start (b :: bs)
        if na != nb then na < nb
        else if ca != cb then ca < cb
        else a < b

/-- Members in the order of their keys. -/
def sortedMembers {α : Type} (members : List (String × α)) : List (String × α) :=
  members.mergeSort (fun x y => !keyBefore [] y.1.toList x.1.toList)

/-- A key that fits on its line in front of a colon. -/
def isSimpleKey (key : String) : Bool :=
  !(key.toList.any isScalarBreak) && key.utf8ByteSize ≤ 128

/-- The start of a line at the given indentation; nothing when the text so far ends a line already
and stands there. -/
def spaces (n : Nat) : List Char :=
  List.replicate n ' '

/-- Ends the line of a value unless it has ended. -/
def endLine (cs : List Char) : List Char :=
  if cs.getLast? == some '\n' then cs else cs ++ ['\n']

/-- The text of a number. -/
def numberText (x : Binary64) : List Char :=
  NumberLayout.brief.render x

mutual

/-- The lines of a value after the indicator or key in front of it. `depth` is the indentation of the
lines of the value itself; `inline` says that the first line goes on after a hyphen. -/
def lines (depth : Nat) (inline : Bool) : Json.Value → List Char
  | .null => "null\n".toList
  | .bool true => "true\n".toList
  | .bool false => "false\n".toList
  | .number x => numberText x ++ ['\n']
  | .string s => endLine (valueText depth s.toList)
  | .array [] => "[]\n".toList
  | .array (item :: rest) => (if inline then [] else ['\n']) ++ itemLines depth inline (item :: rest)
  | .object [] => ['\x7b', '\x7d', '\n']
  | .object (member :: rest) =>
    (if inline then [] else ['\n']) ++ memberLines depth inline (member :: rest)

/-- The lines of items. The first one goes on in a line that was started when `inline` is set. -/
def itemLines (depth : Nat) (inline : Bool) : List Json.Value → List Char
  | [] => []
  | item :: rest =>
    (if inline then [] else spaces depth) ++ '-' :: ' ' :: (lines (depth + 2) true item
      ++ itemLines depth false rest)

/-- The lines of members. -/
def memberLines (depth : Nat) (inline : Bool) : List (String × Json.Value) → List Char
  | [] => []
  | (key, value) :: rest =>
    let front := if inline then [] else spaces depth
    let body := lines (depth + 2) false value
    let line :=
      if isSimpleKey key then
        inlineText key.toList ++ ':' :: (if body.head? == some '\n' then body else ' ' :: body)
      else
        '?' :: ' ' :: (endLine (valueText (depth + 2) key.toList) ++ spaces depth ++ ':' :: ' '
          :: lines (depth + 2) true value)
    front ++ line ++ memberLines depth false rest

end

mutual

/-- Data with the members of all objects in the order of their keys. -/
def ordered : Json.Value → Json.Value
  | .array items => .array (orderedItems items)
  | .object members => .object (sortedMembers (orderedMembers members))
  | v => v

/-- Items with their members in order. -/
def orderedItems : List Json.Value → List Json.Value
  | [] => []
  | v :: rest => ordered v :: orderedItems rest

/-- Members with their own members in order. -/
def orderedMembers : List (String × Json.Value) → List (String × Json.Value)
  | [] => []
  | (key, v) :: rest => (key, ordered v) :: orderedMembers rest

end

/-- JSON data as a YAML document. -/
def render (v : Json.Value) : List Char :=
  lines 0 true (ordered v)

end FlowScript.Yaml
