import FlowScript.Source.Bracketing
import FlowScript.Text.Blank
import FlowScript.Text.Letter
import FlowScript.Text.Search

/-!
# Signatures of function sources

The name, the parameters and the returned items of the first function in a piece of Python source.
The reading is made line by line and never fails: where no header is found the signature is empty.

## Main definitions

- `opening?` finds the first `def name(` of a text.
- `header?` finds the first header that is complete, from `def` to the colon.
- `Signature.ofSource` is the signature whose names become the ports of a node.
-/

namespace FlowScript.Source

open FlowScript.Text

/-- A character that may start an identifier. -/
def isIdentStart (c : Char) : Bool :=
  ('a' ≤ c && c ≤ 'z') || ('A' ≤ c && c ≤ 'Z') || c == '_'

/-- A character that may continue an identifier. -/
def isIdentChar (c : Char) : Bool :=
  isIdentStart c || ('0' ≤ c && c ≤ '9')

/-- Reads `def`, blanks, an identifier, blanks and an opening bracket at the front of a text: the
identifier and what follows the bracket. -/
def openingHere? (cs : List Char) : Option (List Char × List Char) :=
  match dropFront? ['d', 'e', 'f'] cs with
  | none => none
  | some afterDef =>
    let named := afterDef.dropWhile isSpace
    if named.length = afterDef.length then none
    else
      match named with
      | [] => none
      | c :: _ =>
        if isIdentStart c then
          match (named.dropWhile isIdentChar).dropWhile isSpace with
          | '(' :: inside => some (named.takeWhile isIdentChar, inside)
          | _ => none
        else none

/-- The first `def name(` of a text: the name and what follows the bracket. -/
def opening? : List Char → Option (List Char × List Char)
  | [] => none
  | c :: cs =>
    match openingHere? (c :: cs) with
    | some found => some found
    | none => opening? cs

/-- The rest of a line after a parameter list ends a header: a colon, or an arrow and a colon
further on. -/
def endsHeader (rest : List Char) : Bool :=
  let line := strip (rest.takeWhile (· != '\n'))
  startsWith [':'] line || (startsWith ['-', '>'] line && line.contains ':')

/-- The first complete header of a text: its name and the text of its parameter list. A parameter
list that never closes ends the search. -/
def header? : List Char → Option (List Char × List Char)
  | [] => none
  | c :: cs =>
    match openingHere? (c :: cs) with
    | none => header? cs
    | some (name, inside) =>
      match closing? 0 .outside inside with
      | none => none
      | some (params, rest) => if endsHeader rest then some (name, params) else header? cs

/-- The name of one parameter: what stands before its annotation and its default. -/
def paramName (param : List Char) : List Char :=
  strip ((param.takeWhile (· != ':')).takeWhile (· != '='))

/-- A first parameter that a method receives implicitly. -/
def isReceiver (name : List Char) : Bool :=
  name == ['s', 'e', 'l', 'f'] || name == ['c', 'l', 's']

/-- The parameter names of a parameter list, without receivers. -/
def paramNames (params : List Char) : List (List Char) :=
  ((splitTopLevel params).map paramName).filter (fun name => !name.isEmpty && !isReceiver name)

/-- A line that starts as a comment or as a documentation string. -/
def startsRemark (line : List Char) : Bool :=
  startsWith ['#'] line || startsWith ['"', '"', '"'] line || startsWith ['\'', '\'', '\''] line

/-- The expression of a return statement that fills a line. -/
def returned? (line : List Char) : Option (List Char) :=
  match dropFront? ['r', 'e', 't', 'u', 'r', 'n'] line with
  | none => none
  | some rest =>
    let expr := rest.dropWhile isSpace
    if expr.length = rest.length ∨ expr.isEmpty then none else some expr

/-- The items that a line returns; none when the line is no return statement, returns nothing or
returns `None`. -/
def returnedItems (line : List Char) : List (List Char) :=
  let line := strip line
  if startsRemark line then []
  else
    match returned? line with
    | none => []
    | some expr =>
      let expr := strip (beforeComment .outside expr)
      if expr.isEmpty || sameFold (String.ofList expr) "none" then []
      else ((splitTopLevel expr).map strip).filter (fun item => !item.isEmpty)

/-- The longer of two lists, the first when they are of one length. -/
def widest (best items : List (List Char)) : List (List Char) :=
  if best.length < items.length then items else best

/-- The items of the return statement with the most items; the first of several wins. -/
def returnNames (code : List Char) : List (List Char) :=
  ((cut '\n' code).map returnedItems).foldl widest []

end FlowScript.Source

namespace FlowScript

/-- What a function source says about the ports of its node. -/
structure Signature where
  /-- The declared name, empty when there is no header. -/
  name : String
  /-- The parameter names in order. -/
  inputs : List String
  /-- The items of the widest return statement, as written. -/
  outputs : List String

/-- The signature of the first function of a source text. -/
def Signature.ofSource (code : String) : Signature :=
  match Source.header? code.toList with
  | none => ⟨"", [], []⟩
  | some (name, params) =>
    ⟨String.ofList name, (Source.paramNames params).map String.ofList,
      (Source.returnNames code.toList).map String.ofList⟩

/-- The name in the first `def name(` of a source text. -/
def functionName? (code : String) : Option String :=
  (Source.opening? code.toList).map (fun (name, _) => String.ofList name)

/-- The pieces of a text between its top-level commas. -/
def splitTopLevel (s : String) : List String :=
  (Source.splitTopLevel s.toList).map String.ofList

/-- A source line is an import statement. -/
def isImportLine (line : String) : Bool :=
  let line := Text.strip line.toList
  Text.startsWith "import ".toList line || Text.startsWith "from ".toList line

end FlowScript
