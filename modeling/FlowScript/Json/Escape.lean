import FlowScript.Text.Hex

/-!
# String literals of JSON

Writing a text between double quotes and reading it back. Line separators and control characters
are always escaped; markup characters are escaped where a document may end up inside a page.
-/

namespace FlowScript.Json

open Text

/-- How a document treats the characters that are special in markup. -/
inductive Markup where
  /-- Written as they are. -/
  | plain
  /-- Written as escapes. -/
  | escaped
  deriving DecidableEq

/-- A six-character escape. -/
def unicodeEscape (n : Nat) : List Char :=
  '\\' :: 'u' :: hex 4 n

/-- The angle brackets and the ampersand. -/
def isMarkup (c : Char) : Bool :=
  c == '<' || c == '>' || c == '&'

/-- The line and the paragraph separator. -/
def isSeparator (c : Char) : Bool :=
  c.toNat == 0x2028 || c.toNat == 0x2029

/-- The characters that stand for `c` in a string literal. -/
def escapeChar (markup : Markup) (c : Char) : List Char :=
  if c == '"' || c == '\\' then ['\\', c]
  else if c == '\n' then ['\\', 'n']
  else if c == '\r' then ['\\', 'r']
  else if c == '\t' then ['\\', 't']
  else if c == '\x08' then ['\\', 'b']
  else if c == '\x0c' then ['\\', 'f']
  else if c.toNat < 0x20 || isSeparator c || (markup == .escaped && isMarkup c) then
    unicodeEscape c.toNat
  else [c]

/-- The body of the string literal for a text. -/
def escape (markup : Markup) (cs : List Char) : List Char :=
  cs.flatMap (escapeChar markup)

/-- The string literal for a text. -/
def literal (markup : Markup) (cs : List Char) : List Char :=
  '"' :: (escape markup cs ++ ['"'])

/-- The value of four hexadecimal digits. -/
def hex4? (a b c d : Char) : Option Nat := do
  let a ← hexValue? a
  let b ← hexValue? b
  let c ← hexValue? c
  let d ← hexValue? d
  return ((a * 16 + b) * 16 + c) * 16 + d

/-- The character that stands for a surrogate without its partner. -/
def replacement : Char := '\ufffd'

/-- A code unit that starts a pair. -/
def isHighSurrogate (n : Nat) : Bool := 0xD800 ≤ n && n < 0xDC00

/-- A code unit that ends a pair. -/
def isLowSurrogate (n : Nat) : Bool := 0xDC00 ≤ n && n < 0xE000

/-- The character of an escape with a letter. -/
def shortEscape (c : Char) : Char :=
  match c with
  | 'b' => '\x08'
  | 'f' => '\x0c'
  | 'n' => '\n'
  | 'r' => '\r'
  | 't' => '\t'
  | c => c

/-- One element of a string body: a character, or a code unit given by its number. -/
inductive Element where
  | char (c : Char)
  | unit (n : Nat)

/-- The elements of a string body. -/
def elements : List Char → List Element
  | [] => []
  | [c] => [.char c]
  | c :: e :: rest =>
    if c == '\\' then
      if e == 'u' then
        match rest with
        | h₁ :: h₂ :: h₃ :: h₄ :: rest =>
          match hex4? h₁ h₂ h₃ h₄ with
          | some n => .unit n :: elements rest
          | none => .char replacement :: elements rest
        | _ => [.char replacement]
      else .char (shortEscape e) :: elements rest
    else .char c :: elements (e :: rest)

/-- The character of a code unit that is no half of a pair. -/
def unitChar (n : Nat) : Char :=
  if isHighSurrogate n || isLowSurrogate n then replacement else Char.ofNat n

/-- Joins the two halves of a pair to one character. -/
def joinUnits : List Element → List Char
  | [] => []
  | .char c :: rest => c :: joinUnits rest
  | [.unit n] => [unitChar n]
  | .unit n :: .char c :: rest => unitChar n :: c :: joinUnits rest
  | .unit n :: .unit m :: rest =>
    if isHighSurrogate n && isLowSurrogate m then
      Char.ofNat (0x10000 + (n - 0xD800) * 0x400 + (m - 0xDC00)) :: joinUnits rest
    else unitChar n :: joinUnits (.unit m :: rest)

/-- The text that the body of a string literal stands for. A pair of surrogate escapes is one
character, and a surrogate alone becomes the replacement character. -/
def unescape (body : List Char) : List Char :=
  joinUnits (elements body)

end FlowScript.Json
