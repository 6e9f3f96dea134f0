/-!
# Brackets and string literals in a source line

A left-to-right reading of Python source that knows just enough to tell whether a character stands
inside a string literal and how many brackets are open around it. Three readings use it: the end of
a bracketed list, the commas that separate its items, and the start of a comment.
-/

namespace FlowScript.Source

/-- Where a reading stands with respect to string literals. -/
inductive Literal where
  /-- Not in a literal. -/
  | outside
  /-- In a literal that the given quote ends. -/
  | inside (quote : Char)
  /-- In such a literal, right after a backslash. -/
  | escaped (quote : Char)
  deriving DecidableEq

/-- A character that starts a string literal. -/
def isQuote (c : Char) : Bool :=
  c == '\'' || c == '"'

/-- A bracket that opens a list. -/
def isOpener (c : Char) : Bool :=
  c == '(' || c == '[' || c == '\x7b'

/-- A bracket that closes a list. Kinds of brackets are not told apart. -/
def isCloser (c : Char) : Bool :=
  c == ')' || c == ']' || c == '\x7d'

/-- The state after one more character. A backslash takes the character after it along. -/
def Literal.next : Literal → Char → Literal
  | outside, c => if isQuote c then inside c else outside
  | inside quote, c =>
    if c == '\\' then escaped quote else if c == quote then outside else inside quote
  | escaped quote, _ => inside quote

/-- Reads up to the bracket that closes the innermost of `depth + 1` open ones and all around it:
the text before that bracket and the text after it. -/
def closing? (depth : Nat) (literal : Literal) : List Char → Option (List Char × List Char)
  | [] => none
  | c :: cs =>
    if literal = .outside ∧ isCloser c = true then
      match depth with
      | 0 => some ([], cs)
      | d + 1 => (closing? d .outside cs).map (fun (before, after) => (c :: before, after))
    else
      let deeper := if literal = .outside ∧ isOpener c = true then depth + 1 else depth
      (closing? deeper (literal.next c) cs).map (fun (before, after) => (c :: before, after))

/-- The depth after one more character outside of literals; an unmatched closing bracket is
ignored. -/
def depthAfter (depth : Nat) (c : Char) : Nat :=
  if isOpener c then depth + 1 else if isCloser c then depth - 1 else depth

/-- Splits a text at the commas that stand outside literals, with no bracket open. The reading
starts at the given depth and state. -/
def splitFrom (depth : Nat) (literal : Literal) : List Char → List (List Char)
  | [] => [[]]
  | c :: cs =>
    if literal = .outside ∧ depth = 0 ∧ c = ',' then [] :: splitFrom 0 .outside cs
    else
      let deeper := if literal = .outside then depthAfter depth c else depth
      match splitFrom deeper (literal.next c) cs with
      | [] => [[c]]
      | piece :: rest => (c :: piece) :: rest

/-- Splits a text at its top-level commas. Pieces keep their blanks. -/
def splitTopLevel (cs : List Char) : List (List Char) :=
  splitFrom 0 .outside cs

/-- The text before the first `#` outside literals. -/
def beforeComment (literal : Literal) : List Char → List Char
  | [] => []
  | c :: cs =>
    if literal = .outside ∧ c = '#' then [] else c :: beforeComment (literal.next c) cs

end FlowScript.Source
