import FlowScript.Text.Search
import FlowScript.Web.Percent

/-!
# The host of an origin

A browser names the site that a request comes from. What counts is the host and port in that address;
an address that is malformed anywhere names no host.
-/

namespace FlowScript.Web

open Text

/-- Splits at the first occurrence of a character, which belongs to neither part. -/
def cutAt (c : Char) (cs : List Char) : List Char × List Char :=
  (cs.takeWhile (· != c), (cs.dropWhile (· != c)).drop 1)

/-- Splits the scheme from the front; it is empty if there is none. None if an address starts with a
colon. -/
def splitScheme? (cs : List Char) : Option (List Char × List Char) :=
  let isPart (c : Char) : Bool := c.isAlphanum || c == '+' || c == '-' || c == '.'
  let word := cs.takeWhile isPart
  match word, cs.dropWhile isPart with
  | [], ':' :: _ => none
  | c :: _, ':' :: rest => if c.isAlpha then some (word, rest) else some ([], cs)
  | _, _ => some ([], cs)

/-- A port with its colon, or nothing. -/
def isPort : List Char → Bool
  | [] => true
  | c :: digits => c == ':' && digits.all isDigit

/-- A character below 128 that may stand in a host. -/
def isHostChar (c : Char) : Bool :=
  c.isAlphanum || "-_.~!$&'()*+,;=:[]<>\"".toList.contains c

/-- Every escape in a host stands for a byte above 127 or for a percent sign. -/
def hostEscapesFit : List Char → Bool
  | [] => true
  | '%' :: a :: b :: rest =>
    ((hexValue? a).any (8 ≤ ·) || (a == '2' && b == '5')) && hostEscapesFit rest
  | _ :: rest => hostEscapesFit rest

/-- The host with its port, escapes replaced. -/
def hostText? (cs : List Char) : Option (List Char) :=
  let afterHost :=
    if cs.contains '[' then
      if cs.contains ']' then some (cs.reverse.takeWhile (· != ']')).reverse else none
    else if cs.contains ':' then some (':' :: (cs.reverse.takeWhile (· != ':')).reverse)
    else some []
  match afterHost with
  | none => none
  | some port =>
    if isPort port && hostEscapesFit cs
        && cs.all (fun c => 0x80 ≤ c.toNat || c == '%' || isHostChar c) then unescape? cs
    else none

/-- A character of the user in front of a host. -/
def isUserChar (c : Char) : Bool :=
  c.isAlphanum || "-._:~!$&'()*+,;=%@".toList.contains c

/-- The host of an authority, which a user may stand in front of. -/
def authorityHost? (cs : List Char) : Option (List Char) :=
  if cs.contains '@' then
    let host := (cs.reverse.takeWhile (· != '@')).reverse
    let user := cs.take (cs.length - host.length - 1)
    if user.all isUserChar && (unescape? user).isSome then hostText? host else none
  else hostText? cs

/-- The host that an address names, empty if it names none; none if the address is malformed. -/
def hostOf? (address : String) : Option String := do
  let (front, fragment) := cutAt '#' address.toList
  if front.any (fun c => c.toNat < 0x20 || c.toNat == 0x7F) then none
  let _ ← unescape? fragment
  let (scheme, rest) ← splitScheme? front
  let rest := (cutAt '?' rest).1
  if rest.head? != some '/' then
    if scheme.isEmpty && rest != ['*'] && (cutAt '/' rest).1.contains ':' then none
    else if scheme.isEmpty then (unescape? rest).map (fun _ => "") else some ""
  else if startsWith "//".toList rest && (!scheme.isEmpty || !startsWith "///".toList rest) then
    let authority := (rest.drop 2).takeWhile (· != '/')
    let host ← authorityHost? authority
    let _ ← unescape? (rest.drop (2 + authority.length))
    return String.ofList host
  else (unescape? rest).map (fun _ => "")

end FlowScript.Web
