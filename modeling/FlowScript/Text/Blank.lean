/-!
# Blank characters

The characters that count as white space when user text is trimmed or cut into words, and the
narrower class that separates the words of a source line. Texts are handled as lists of
characters; `trim` and `words` carry the operations over to `String`.
-/

namespace FlowScript.Text

/-- A character with the Unicode property `White_Space`. -/
def isBlank (c : Char) : Bool :=
  let n := c.toNat
  (9 ≤ n && n ≤ 13) || n == 0x20 || n == 0x85 || n == 0xA0 || n == 0x1680
    || (0x2000 ≤ n && n ≤ 0x200A) || n == 0x2028 || n == 0x2029 || n == 0x202F
    || n == 0x205F || n == 0x3000

/-- The blanks inside one source line or between tokens: tab, line feed, form feed, carriage
return and space. -/
def isSpace (c : Char) : Bool :=
  c == '\t' || c == '\n' || c == '\x0c' || c == '\r' || c == ' '

/-- A space or a tab, the only characters that indent a line. -/
def isIndent (c : Char) : Bool :=
  c == ' ' || c == '\t'

/-- Drops the characters at the end that satisfy `p`. -/
def dropEndWhile (p : Char → Bool) (cs : List Char) : List Char :=
  (cs.reverse.dropWhile p).reverse

/-- Drops the characters at both ends that satisfy `p`. -/
def stripWhile (p : Char → Bool) (cs : List Char) : List Char :=
  dropEndWhile p (cs.dropWhile p)

/-- Drops blanks at both ends. -/
def strip (cs : List Char) : List Char :=
  stripWhile isBlank cs

/-- Every character is blank; the empty text is blank too. -/
def allBlank (cs : List Char) : Bool :=
  cs.all isBlank

/-- Cuts a text at the characters that satisfy `p`. There is one piece more than there are
cuts. -/
def cutWhere (p : Char → Bool) (cs : List Char) : List (List Char) :=
  cs.foldr
    (fun c pieces =>
      if p c then [] :: pieces
      else
        match pieces with
        | [] => [[c]]
        | piece :: rest => (c :: piece) :: rest)
    [[]]

/-- Cuts a text at every occurrence of one character. -/
def cut (sep : Char) (cs : List Char) : List (List Char) :=
  cutWhere (· == sep) cs

/-- The maximal runs of characters that are not blank, in order. -/
def wordsOf (cs : List Char) : List (List Char) :=
  (cutWhere isBlank cs).filter (fun piece => !piece.isEmpty)

/-- Glues pieces together with a separator between neighbours. -/
def glue (sep : List Char) : List (List Char) → List Char
  | [] => []
  | [piece] => piece
  | piece :: rest => piece ++ sep ++ glue sep rest

end FlowScript.Text

namespace FlowScript

/-- A text without the blanks at its ends. -/
def trim (s : String) : String :=
  String.ofList (Text.strip s.toList)

/-- A text has no character that is not blank. -/
def isBlankText (s : String) : Bool :=
  Text.allBlank s.toList

/-- The words of a text. -/
def words (s : String) : List String :=
  (Text.wordsOf s.toList).map String.ofList

/-- The pieces of a text between occurrences of one character. -/
def splitAt (sep : Char) (s : String) : List String :=
  (Text.cut sep s.toList).map String.ofList

/-- The lines of a text; only a line feed ends a line. -/
def lines (s : String) : List String :=
  splitAt '\n' s

end FlowScript
