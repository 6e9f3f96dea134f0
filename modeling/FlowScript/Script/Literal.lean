import FlowScript.Json.Escape
import FlowScript.Text.Blank
import FlowScript.Text.Search

/-!
# User text in the script

How the names and data of a flow are written into Python source so that they stay what they are: as
a string literal, as the fixed part of a formatted string, inside a comment and inside the
documentation string at the top.
-/

namespace FlowScript.Script

open Text

/-- A double-quoted string literal for a text. -/
def stringLiteral (s : List Char) : List Char :=
  Json.literal .plain s

/-- What stands for one character in the fixed part of a formatted string. -/
def formatChar (c : Char) : List Char :=
  if c == '\\' then ['\\', '\\']
  else if c == '"' then ['\\', '"']
  else if c == '\x7b' then ['\x7b', '\x7b']
  else if c == '\x7d' then ['\x7d', '\x7d']
  else if c == '\n' then ['\\', 'n']
  else if c == '\r' then ['\\', 'r']
  else [c]

/-- A text as the fixed part of a double-quoted formatted string. -/
def formatText (s : List Char) : List Char :=
  s.flatMap formatChar

/-- A text on one line, with single spaces between its words. -/
def remark (s : List Char) : List Char :=
  glue [' '] (wordsOf s)

/-- A text on one line of a documentation string: backslashes are doubled and a closing mark is
broken up by escapes. -/
def docText (s : List Char) : List Char :=
  let s := s.flatMap (fun c => if c == '\\' then ['\\', '\\'] else [c])
  let s := replaceAll ['"', '"', '"'] ['\\', '"', '\\', '"', '\\', '"'] s
  remark s

/-- A text on one line, for use in strings. -/
def remarkText (s : String) : String :=
  String.ofList (remark s.toList)

/-- A script of comments only that shows a title and, line by line, a message. -/
def errorBanner (title : String) (message : Option String) : String :=
  let shown (line : List Char) : List Char :=
    dropEndWhile (· == ' ') ('#' :: ' ' :: line) ++ ['\n']
  let body :=
    match message with
    | none => []
    | some text => (cut '\n' text.toList).flatMap shown
  String.ofList ('#' :: ' ' :: (remark title.toList ++ '\n' :: body))

/-- The longest common front of two texts. -/
def commonFront : List Char → List Char → List Char
  | a :: as, b :: bs => if a == b then a :: commonFront as bs else []
  | _, _ => []

/-- The indentation that all lines with something on them share. -/
def sharedIndent (lines : List (List Char)) : List Char :=
  match (lines.filter (fun l => !allBlank l)).map (fun l => l.takeWhile isIndent) with
  | [] => []
  | first :: rest => rest.foldl commonFront first

/-- Removes the shared indentation and the blanks at line ends; blank lines become empty, and those
at the start and the end are dropped. -/
def dedentLines (lines : List (List Char)) : List (List Char) :=
  let indent := sharedIndent lines
  let clean (l : List Char) : List Char :=
    if allBlank l then [] else dropEndWhile isIndent (dropFront indent l)
  let cleaned := (lines.map clean).dropWhile (·.isEmpty)
  (cleaned.reverse.dropWhile (·.isEmpty)).reverse

/-- The text of lines without their shared indentation. -/
def dedent (lines : List (List Char)) : List Char :=
  glue ['\n'] (dedentLines lines)

end FlowScript.Script
