import FlowScript.Text.Hex

/-!
# Quoted texts of TOML

Four kinds of quoted text: basic texts know escapes, literal texts do not; each kind may span lines
if it stands between three quotes. Control characters other than tabs are refused.
-/

namespace FlowScript.Toml

open Text

/-- A character that may stand in quoted texts and remarks. -/
def isAllowed (c : Char) : Bool :=
  c == '\t' || (0x20 ≤ c.toNat && c.toNat != 0x7F)

/-- The character that a short escape stands for. -/
def escaped? (c : Char) : Option Char :=
  match c with
  | '"' => some '"'
  | '\\' => some '\\'
  | 'b' => some '\x08'
  | 'f' => some '\x0c'
  | 'n' => some '\n'
  | 'r' => some '\r'
  | 't' => some '\t'
  | 'e' => some '\x1b'
  | _ => none

/-- The character with the number that hexadecimal digits write. -/
def numbered? (digits : List Char) : Option Char := do
  let n ← digits.foldlM (fun n c => (hexValue? c).map (n * 16 + ·)) 0
  if h : n.isValidChar then some (Char.ofNatAux n h) else none

/-- The rest of a basic text on one line, after the opening quote. -/
def basic? (done : List Char) : List Char → Option (List Char × List Char)
  | [] => none
  | '"' :: rest => some (done.reverse, rest)
  | '\\' :: 'u' :: a :: b :: c :: d :: rest => do
    basic? ((← numbered? [a, b, c, d]) :: done) rest
  | '\\' :: 'U' :: a :: b :: c :: d :: e :: f :: g :: h :: rest => do
    basic? ((← numbered? [a, b, c, d, e, f, g, h]) :: done) rest
  | '\\' :: c :: rest => do basic? ((← escaped? c) :: done) rest
  | c :: rest => if isAllowed c && c != '\\' then basic? (c :: done) rest else none

/-- The rest of a literal text on one line, after the opening quote. -/
def literal? (done : List Char) : List Char → Option (List Char × List Char)
  | [] => none
  | '\'' :: rest => some (done.reverse, rest)
  | c :: rest => if isAllowed c then literal? (c :: done) rest else none

/-- Only blanks are left on the line. -/
def onlyBlanks (cs : List Char) : Bool :=
  match cs.dropWhile (fun c => c == ' ' || c == '\t') with
  | '\n' :: _ => true
  | '\r' :: '\n' :: _ => true
  | _ => false

/-- The end of a text between three quotes: up to two more quotes belong to the text. The argument
follows the third closing quote. -/
def closing? (quote : Char) (done rest : List Char) : Option (List Char × List Char) :=
  let extra := rest.takeWhile (· == quote)
  if 2 < extra.length then none else some (done.reverse ++ extra, rest.drop extra.length)

/-- The rest of a basic text over lines. While `joining`, line breaks and blanks are skipped, as they
are after a backslash that ends a line. -/
def basicLines? (joining : Bool) (done : List Char) : List Char → Option (List Char × List Char)
  | [] => none
  | '"' :: '"' :: '"' :: rest => closing? '"' done rest
  | '\r' :: '\n' :: rest => basicLines? joining (if joining then done else '\n' :: '\r' :: done) rest
  | '\\' :: 'u' :: a :: b :: c :: d :: rest => do
    basicLines? false ((← numbered? [a, b, c, d]) :: done) rest
  | '\\' :: 'U' :: a :: b :: c :: d :: e :: f :: g :: h :: rest => do
    basicLines? false ((← numbered? [a, b, c, d, e, f, g, h]) :: done) rest
  | '\\' :: c :: rest =>
    if onlyBlanks (c :: rest) then basicLines? true done (c :: rest)
    else do basicLines? false ((← escaped? c) :: done) rest
  | c :: rest =>
    if joining && (c == ' ' || c == '\t' || c == '\n') then basicLines? true done rest
    else if (isAllowed c || c == '\n') && c != '\\' then basicLines? false (c :: done) rest
    else none

/-- The rest of a literal text over lines. -/
def literalLines? (done : List Char) : List Char → Option (List Char × List Char)
  | [] => none
  | '\'' :: '\'' :: '\'' :: rest => closing? '\'' done rest
  | '\r' :: '\n' :: rest => literalLines? ('\n' :: '\r' :: done) rest
  | c :: rest => if isAllowed c || c == '\n' then literalLines? (c :: done) rest else none

/-- A line break right after the opening quotes does not belong to the text. -/
def dropBreak : List Char → List Char
  | '\n' :: rest => rest
  | '\r' :: '\n' :: rest => rest
  | cs => cs

/-- Reads a quoted text at the front, of any kind; none also if there is no quote. -/
def quoted? (cs : List Char) : Option (String × List Char) :=
  let found :=
    match cs with
    | '"' :: '"' :: '"' :: rest => basicLines? false [] (dropBreak rest)
    | '\'' :: '\'' :: '\'' :: rest => literalLines? [] (dropBreak rest)
    | '"' :: rest => basic? [] rest
    | '\'' :: rest => literal? [] rest
    | _ => none
  found.map (fun (text, rest) => (String.ofList text, rest))

/-- A character of a key without quotes. -/
def isBareChar (c : Char) : Bool :=
  c.isAlphanum || c == '-' || c == '_'

/-- Reads one part of a key: a bare word or a quoted text on one line. -/
def keyPart? (cs : List Char) : Option (String × List Char) :=
  match cs with
  | '"' :: rest => (basic? [] rest).map (fun (text, rest) => (String.ofList text, rest))
  | '\'' :: rest => (literal? [] rest).map (fun (text, rest) => (String.ofList text, rest))
  | cs =>
    let word := cs.takeWhile isBareChar
    if word.isEmpty then none else some (String.ofList word, cs.dropWhile isBareChar)

end FlowScript.Toml
