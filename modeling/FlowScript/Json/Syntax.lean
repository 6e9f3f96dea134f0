import FlowScript.Json.Escape
import FlowScript.Text.Quoted

/-!
# The syntax of JSON

A document as it is written: numbers and string bodies keep their spelling and members keep their
order and repetitions. Only the blanks between tokens are dropped, so a document can be kept and
written again digit for digit.

The reader is a machine that takes one character at a time. Its state is a stack of the lists and
objects that are open and a mode that says what may come next, so reading is one pass over the text
and a fault is found at the first character that no document could have there. How many lists and
objects may be open at a time is a parameter; documents of this library are read with `maxDepth`.

## Main definitions

- `Tree` is the written document.
- `readWithin` reads the first value of a text, `parseWithin` a text that holds one value and nothing
  else; `read` and `parse` do so with the limit `maxDepth`.
- `Tree.respelled` escapes the special characters of a document.
- `Tree.compact` writes a document without blanks.
-/

namespace FlowScript.Json

open Text

/-- A document as it is written. -/
inductive Tree where
  | null
  | bool (value : Bool)
  /-- A number in its spelling. -/
  | number (text : List Char)
  /-- A string by the body of its literal. -/
  | string (body : List Char)
  | array (items : List Tree)
  | object (members : List (List Char × Tree))

instance : Inhabited Tree := ⟨.null⟩

/-- Why a text is not a document. -/
inductive Fault where
  /-- A character that cannot stand where it does. -/
  | unexpected (c : Char) (context : String)
  /-- The text ends inside a value. -/
  | cutShort
  /-- More values are nested in each other than the reader allows. -/
  | tooDeep

/-- The first byte of a character in UTF-8, read as a code point of its own. -/
def leadByte (c : Char) : Char :=
  let n := c.toNat
  if n < 0x80 then c
  else if n < 0x800 then Char.ofNat (0xC0 + n / 0x40)
  else if n < 0x10000 then Char.ofNat (0xE0 + n / 0x1000)
  else Char.ofNat (0xF0 + n / 0x40000)

/-- A character between single quotes, as messages about documents show it. -/
def shownChar (c : Char) : List Char :=
  if c == '\'' then ['\'', '\\', '\'', '\'']
  else if c == '"' then ['\'', '"', '\'']
  else '\'' :: (quotedChar (leadByte c) ++ ['\''])

/-- The wording of a fault. -/
def Fault.message : Fault → String
  | unexpected c context => "invalid character " ++ String.ofList (shownChar c) ++ " " ++ context
  | cutShort => "unexpected end of JSON input"
  | tooDeep => "exceeded max depth"

/-- A list or an object that is still open. Finished parts stand in reverse order. -/
inductive Frame where
  | array (items : List Tree)
  | object (members : List (List Char × Tree)) (key : List Char)

/-- Where a number stands. -/
inductive NumberPhase where
  /-- After the sign. -/
  | sign
  /-- After a leading zero. -/
  | zero
  /-- In the digits before the point. -/
  | whole
  /-- Right after the point. -/
  | point
  /-- In the digits after the point. -/
  | part
  /-- Right after the exponent mark. -/
  | mark
  /-- After the sign of the exponent. -/
  | markSign
  /-- In the digits of the exponent. -/
  | power
  deriving DecidableEq

/-- What a string literal will become. -/
inductive StringRole where
  | key
  | value
  deriving DecidableEq

/-- What the reader expects next. Characters already read stand in reverse order. -/
inductive Mode where
  /-- A value. -/
  | value
  /-- A value or the end of a list that was just opened. -/
  | firstItem
  /-- A key or the end of an object that was just opened. -/
  | firstKey
  /-- A key. -/
  | key
  /-- The colon after a key. -/
  | colon
  /-- A comma or the end of the innermost list or object, after a finished value. -/
  | separator (done : Tree)
  /-- The rest of a string literal. -/
  | text (role : StringRole) (body : List Char)
  /-- The character after a backslash. -/
  | escape (role : StringRole) (body : List Char)
  /-- The given number of hexadecimal digits. -/
  | hexDigits (count : Nat) (role : StringRole) (body : List Char)
  /-- The rest of a number. -/
  | number (phase : NumberPhase) (text : List Char)
  /-- The rest of a word. -/
  | word (name rest : List Char) (result : Tree)

/-- The state of the reader: what is open, innermost first, and what comes next. -/
structure State where
  frames : List Frame
  mode : Mode

/-- The nesting that is allowed where documents are read. -/
def maxDepth : Nat := 10000

/-- The outcome of one character. -/
inductive Step where
  /-- Reading goes on. -/
  | more (s : State)
  /-- The outermost value was complete before this character. -/
  | complete (t : Tree)
  | fault (f : Fault)

/-- The blanks between tokens. -/
def isGap (c : Char) : Bool :=
  c == ' ' || c == '\t' || c == '\r' || c == '\n'

/-- A number that may end in this phase. -/
def NumberPhase.isComplete : NumberPhase → Bool
  | zero | whole | part | power => true
  | _ => false

/-- The phase after one more character of a number, or none when the number cannot go on with it. -/
def NumberPhase.next? (phase : NumberPhase) (c : Char) : Option NumberPhase :=
  match phase with
  | sign => if c == '0' then some zero else if isDigit c then some whole else none
  | zero => if c == '.' then some point else if c == 'e' || c == 'E' then some mark else none
  | whole =>
    if isDigit c then some whole
    else if c == '.' then some point
    else if c == 'e' || c == 'E' then some mark
    else none
  | point => if isDigit c then some part else none
  | part => if isDigit c then some part else if c == 'e' || c == 'E' then some mark else none
  | mark => if c == '+' || c == '-' then some markSign else if isDigit c then some power else none
  | markSign => if isDigit c then some power else none
  | power => if isDigit c then some power else none

/-- What a number lacks in a phase where it may not end. -/
def NumberPhase.context : NumberPhase → String
  | point => "after decimal point in numeric literal"
  | mark | markSign => "in exponent of numeric literal"
  | _ => "in numeric literal"

/-- Opens a list or an object if the limit leaves room. -/
def open_ (limit : Nat) (s : State) (frame : Frame) (mode : Mode) : Step :=
  if s.frames.length < limit then .more ⟨frame :: s.frames, mode⟩ else .fault .tooDeep

/-- The first character of a value. -/
def beginValue (limit : Nat) (s : State) (c : Char) : Step :=
  if c == '\x7b' then open_ limit s (.object [] []) .firstKey
  else if c == '[' then open_ limit s (.array []) .firstItem
  else if c == '"' then .more { s with mode := .text .value [] }
  else if c == '-' then .more { s with mode := .number .sign [c] }
  else if c == '0' then .more { s with mode := .number .zero [c] }
  else if isDigit c then .more { s with mode := .number .whole [c] }
  else if c == 't' then .more { s with mode := .word "true".toList "rue".toList (.bool true) }
  else if c == 'f' then .more { s with mode := .word "false".toList "alse".toList (.bool false) }
  else if c == 'n' then .more { s with mode := .word "null".toList "ull".toList .null }
  else .fault (.unexpected c "looking for beginning of value")

/-- One character after a finished value. -/
def afterValue (frames : List Frame) (done : Tree) (c : Char) : Step :=
  match frames with
  | [] => .complete done
  | frame :: outer =>
    if isGap c then .more ⟨frames, .separator done⟩
    else
      match frame with
      | .array items =>
        if c == ',' then .more ⟨.array (done :: items) :: outer, .value⟩
        else if c == ']' then .more ⟨outer, .separator (.array (done :: items).reverse)⟩
        else .fault (.unexpected c "after array element")
      | .object members key =>
        if c == ',' then .more ⟨.object ((key, done) :: members) [] :: outer, .key⟩
        else if c == '\x7d' then
          .more ⟨outer, .separator (.object ((key, done) :: members).reverse)⟩
        else .fault (.unexpected c "after object key:value pair")

/-- The state after a string literal. -/
def endString (s : State) (role : StringRole) (body : List Char) : State :=
  match role, s.frames with
  | .value, _ => { s with mode := .separator (.string body.reverse) }
  | .key, .object members _ :: outer => ⟨.object members body.reverse :: outer, .colon⟩
  | .key, frames => ⟨frames, .colon⟩

/-- One character of the text. -/
def step (limit : Nat) (s : State) (c : Char) : Step :=
  match s.mode with
  | .value => if isGap c then .more s else beginValue limit s c
  | .firstItem =>
    if isGap c then .more s
    else if c == ']' then .more ⟨s.frames.drop 1, .separator (.array [])⟩
    else beginValue limit s c
  | .firstKey =>
    if isGap c then .more s
    else if c == '\x7d' then .more ⟨s.frames.drop 1, .separator (.object [])⟩
    else if c == '"' then .more { s with mode := .text .key [] }
    else .fault (.unexpected c "looking for beginning of object key string")
  | .key =>
    if isGap c then .more s
    else if c == '"' then .more { s with mode := .text .key [] }
    else .fault (.unexpected c "looking for beginning of object key string")
  | .colon =>
    if isGap c then .more s
    else if c == ':' then .more { s with mode := .value }
    else .fault (.unexpected c "after object key")
  | .separator done => afterValue s.frames done c
  | .text role body =>
    if c == '"' then .more (endString s role body)
    else if c == '\\' then .more { s with mode := .escape role (c :: body) }
    else if c.toNat < 0x20 then .fault (.unexpected c "in string literal")
    else .more { s with mode := .text role (c :: body) }
  | .escape role body =>
    if c == 'u' then .more { s with mode := .hexDigits 4 role (c :: body) }
    else if "bfnrt\\/\"".toList.contains c then .more { s with mode := .text role (c :: body) }
    else .fault (.unexpected c "in string escape code")
  | .hexDigits count role body =>
    if (hexValue? c).isSome then
      if count ≤ 1 then .more { s with mode := .text role (c :: body) }
      else .more { s with mode := .hexDigits (count - 1) role (c :: body) }
    else .fault (.unexpected c "in \\u hexadecimal character escape")
  | .number phase text =>
    match phase.next? c with
    | some next => .more { s with mode := .number next (c :: text) }
    | none =>
      if phase.isComplete then afterValue s.frames (.number text.reverse) c
      else .fault (.unexpected c phase.context)
  | .word name rest result =>
    match rest with
    | [] => afterValue s.frames result c
    | [last] =>
      if c == last then .more { s with mode := .separator result }
      else .fault (.unexpected c ("in literal " ++ String.ofList name ++ " (expecting "
        ++ String.ofList (shownChar last) ++ ")"))
    | want :: more =>
      if c == want then .more { s with mode := .word name more result }
      else .fault (.unexpected c ("in literal " ++ String.ofList name ++ " (expecting "
        ++ String.ofList (shownChar want) ++ ")"))

/-- The value of a text that ends in this state. -/
def finish (s : State) : Except Fault Tree :=
  match s.frames, s.mode with
  | [], .separator done => .ok done
  | [], .number phase text =>
    if phase.isComplete then .ok (.number text.reverse) else .error .cutShort
  | [], .word _ [] result => .ok result
  | _, _ => .error .cutShort

/-- Runs the reader until the outermost value is complete: the value and the rest of the text. -/
def runFrom (limit : Nat) (s : State) : List Char → Except Fault (Tree × List Char)
  | [] => (finish s).map (fun t => (t, []))
  | c :: cs =>
    match step limit s c with
    | .more next => runFrom limit next cs
    | .complete t => .ok (t, c :: cs)
    | .fault f => .error f

/-- Reads the first value of a text, nested up to a limit. -/
def readWithin (limit : Nat) (cs : List Char) : Except Fault (Tree × List Char) :=
  runFrom limit ⟨[], .value⟩ cs

/-- Reads a text that holds one value, nested up to a limit, and nothing but blanks around it. -/
def parseWithin (limit : Nat) (cs : List Char) : Except Fault Tree :=
  match readWithin limit cs with
  | .error f => .error f
  | .ok (t, rest) =>
    match rest.dropWhile isGap with
    | [] => .ok t
    | c :: _ => .error (.unexpected c "after top-level value")

/-- Reads the first value of a text. -/
def read (cs : List Char) : Except Fault (Tree × List Char) :=
  readWithin maxDepth cs

/-- Reads a text that holds one value and nothing but blanks around it. -/
def parse (cs : List Char) : Except Fault Tree :=
  parseWithin maxDepth cs

/-- The body of a string literal with the separators and, where asked, the markup characters
escaped. -/
def respell (markup : Markup) (body : List Char) : List Char :=
  match markup with
  | .plain => body
  | .escaped =>
    body.flatMap (fun c => if isMarkup c || isSeparator c then unicodeEscape c.toNat else [c])

mutual

/-- A document with the special characters of its strings escaped. -/
def Tree.respelled (markup : Markup) : Tree → Tree
  | .null => .null
  | .bool b => .bool b
  | .number text => .number text
  | .string body => .string (respell markup body)
  | .array items => .array (respelledItems markup items)
  | .object members => .object (respelledMembers markup members)

/-- The items of a list, respelled. -/
def respelledItems (markup : Markup) : List Tree → List Tree
  | [] => []
  | item :: rest => item.respelled markup :: respelledItems markup rest

/-- The members of an object, keys and values respelled. -/
def respelledMembers (markup : Markup) : List (List Char × Tree) → List (List Char × Tree)
  | [] => []
  | (key, value) :: rest =>
    (respell markup key, value.respelled markup) :: respelledMembers markup rest

end

mutual

/-- A document without blanks between its tokens. -/
def Tree.compact (markup : Markup) : Tree → List Char
  | .null => "null".toList
  | .bool true => "true".toList
  | .bool false => "false".toList
  | .number text => text
  | .string body => '"' :: (respell markup body ++ ['"'])
  | .array items => '[' :: (compactItems markup items ++ [']'])
  | .object members => '\x7b' :: (compactMembers markup members ++ ['\x7d'])

/-- The items of a list with commas between them. -/
def compactItems (markup : Markup) : List Tree → List Char
  | [] => []
  | [item] => item.compact markup
  | item :: rest => item.compact markup ++ ',' :: compactItems markup rest

/-- The members of an object with commas between them. -/
def compactMembers (markup : Markup) : List (List Char × Tree) → List Char
  | [] => []
  | [(key, value)] => '"' :: (respell markup key ++ '"' :: ':' :: value.compact markup)
  | (key, value) :: rest =>
    '"' :: (respell markup key ++ '"' :: ':' :: (value.compact markup ++
      ',' :: compactMembers markup rest))

end

mutual

/-- How many lists and objects stand inside each other. -/
def Tree.depth : Tree → Nat
  | .array items => itemsDepth items + 1
  | .object members => membersDepth members + 1
  | _ => 0

/-- The greatest depth of items. -/
def itemsDepth : List Tree → Nat
  | [] => 0
  | item :: rest => max item.depth (itemsDepth rest)

/-- The greatest depth of the values of members. -/
def membersDepth : List (List Char × Tree) → Nat
  | [] => 0
  | (_, value) :: rest => max value.depth (membersDepth rest)

end

/-- A document that the reader accepts back as far as its nesting goes. -/
def Tree.isReadable (t : Tree) : Bool :=
  t.depth ≤ maxDepth

/-- The start of a new line, `depth` levels in. -/
def newline (depth : Nat) : List Char :=
  '\n' :: List.replicate (2 * depth) ' '

mutual

/-- A document with one item or member per line, two spaces per level. Empty lists and objects stay
on one line. -/
def Tree.indented (markup : Markup) (depth : Nat) : Tree → List Char
  | .array [] => ['[', ']']
  | .array (item :: rest) =>
    '[' :: (indentedItems markup (depth + 1) (item :: rest) ++ newline depth ++ [']'])
  | .object [] => ['\x7b', '\x7d']
  | .object (member :: rest) =>
    '\x7b' :: (indentedMembers markup (depth + 1) (member :: rest) ++ newline depth ++ ['\x7d'])
  | t => t.compact markup

/-- The items of a list, each on a line of its own. -/
def indentedItems (markup : Markup) (depth : Nat) : List Tree → List Char
  | [] => []
  | [item] => newline depth ++ item.indented markup depth
  | item :: rest =>
    newline depth ++ item.indented markup depth ++ ',' :: indentedItems markup depth rest

/-- The members of an object, each on a line of its own. -/
def indentedMembers (markup : Markup) (depth : Nat) : List (List Char × Tree) → List Char
  | [] => []
  | [(key, value)] =>
    newline depth ++ '"' :: (respell markup key ++ "\": ".toList ++ value.indented markup depth)
  | (key, value) :: rest =>
    newline depth ++ '"' :: (respell markup key ++ "\": ".toList ++
      (value.indented markup depth ++ ',' :: indentedMembers markup depth rest))

end

end FlowScript.Json
