import FlowScript.Text.Blank
import FlowScript.Text.Letter
import FlowScript.Text.Search

/-!
# Media types

The media type of a body: a type and a subtype, and parameters that are read only to see whether the
whole is well formed.
-/

namespace FlowScript.Web

open Text

/-- A character of a token. -/
def isTokenChar (c : Char) : Bool :=
  0x20 < c.toNat && c.toNat < 0x7F && !("()<>@,;:\\\"/[]?=".toList.contains c)

/-- Skips blanks. -/
def skipBlanks (cs : List Char) : List Char :=
  cs.dropWhile isBlank

/-- The rest of a quoted value after its opening quote. A backslash only counts before a character
that could not stand in a token. -/
def quotedValue? (done : List Char) : List Char → Option (List Char × List Char)
  | [] => none
  | '"' :: rest => some (done.reverse, rest)
  | '\\' :: c :: rest =>
    if "()<>@,;:\\\"/[]?=".toList.contains c then quotedValue? (c :: done) rest
    else quotedValue? ('\\' :: done) (c :: rest)
  | c :: rest => if c == '\r' || c == '\n' then none else quotedValue? (c :: done) rest

/-- The value of a parameter and what follows; a value that is not quoted has a character at least. -/
def parameterValue? (cs : List Char) : Option (List Char × List Char) :=
  match cs with
  | '"' :: rest => quotedValue? [] rest
  | cs =>
    let word := cs.takeWhile isTokenChar
    if word.isEmpty then none else some (word, cs.dropWhile isTokenChar)

/-- A parameter, after the semicolon in front of it, and what follows. -/
def parameter? (cs : List Char) : Option ((List Char × List Char) × List Char) := do
  let cs := skipBlanks cs
  let name := cs.takeWhile isTokenChar
  if name.isEmpty then none
  match skipBlanks (cs.dropWhile isTokenChar) with
  | '=' :: rest =>
    let (value, rest) ← parameterValue? (skipBlanks rest)
    return (((lower (String.ofList name)).toList, value), rest)
  | _ => none

/-- Parameters are well formed: a name may come again only with the same value, and a semicolon may
end the list. The count bounds the number of parameters. -/
def parametersFit (seen : List (List Char × List Char)) : Nat → List Char → Bool
  | 0, _ => false
  | n + 1, cs =>
    match skipBlanks cs with
    | [] => true
    | ';' :: rest =>
      match parameter? rest with
      | some ((name, value), rest) =>
        (seen.lookup name).all (· == value) && parametersFit ((name, value) :: seen) n rest
      | none => (skipBlanks rest).isEmpty
    | _ => false

/-- The body is declared as JSON. -/
def isJsonType (mediaType : String) : Bool :=
  let base := mediaType.toList.takeWhile (· != ';')
  let rest := mediaType.toList.drop base.length
  trim (lower (String.ofList base)) = "application/json"
    && parametersFit [] (rest.length + 1) rest

end FlowScript.Web
