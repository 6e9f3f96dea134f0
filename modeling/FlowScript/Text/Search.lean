/-!
# Searching and replacing

Fixed texts at the front of, or anywhere inside, a list of characters.
-/

namespace FlowScript.Text

/-- What follows `front` when the text starts with it. -/
def dropFront? : (front cs : List Char) → Option (List Char)
  | [], cs => some cs
  | _ :: _, [] => none
  | f :: front, c :: cs => if f == c then dropFront? front cs else none

/-- The text starts with `front`. -/
def startsWith (front cs : List Char) : Bool :=
  (dropFront? front cs).isSome

/-- The text ends with `back`. -/
def endsWith (back cs : List Char) : Bool :=
  startsWith back.reverse cs.reverse

/-- The text without `front`, when it starts with it. -/
def dropFront (front cs : List Char) : List Char :=
  (dropFront? front cs).getD cs

/-- The text without `back`, when it ends with it. -/
def dropBack (back cs : List Char) : List Char :=
  match dropFront? back.reverse cs.reverse with
  | some rest => rest.reverse
  | none => cs

/-- The part before the first occurrence of `pattern` and the part after it. -/
def cutFirst? (pattern : List Char) : List Char → Option (List Char × List Char)
  | [] => if pattern.isEmpty then some ([], []) else none
  | c :: cs =>
    match dropFront? pattern (c :: cs) with
    | some rest => some ([], rest)
    | none => (cutFirst? pattern cs).map (fun (before, after) => (c :: before, after))

/-- The text holds `pattern` somewhere. -/
def contains (pattern cs : List Char) : Bool :=
  (cutFirst? pattern cs).isSome

/-- Replaces the first occurrence of `pattern`. -/
def replaceFirst (pattern by_ cs : List Char) : List Char :=
  match cutFirst? pattern cs with
  | some (before, after) => before ++ by_ ++ after
  | none => cs

/-- Replaces occurrences of `pattern` from left to right, without looking into what was put in.
The count bounds the number of characters that are still looked at. -/
def replaceAllWithin (pattern by_ : List Char) : Nat → List Char → List Char
  | 0, cs => cs
  | _ + 1, [] => []
  | n + 1, c :: cs =>
    match dropFront? pattern (c :: cs) with
    | some rest => by_ ++ replaceAllWithin pattern by_ n rest
    | none => c :: replaceAllWithin pattern by_ n cs

/-- Replaces every occurrence of a non-empty `pattern`. -/
def replaceAll (pattern by_ cs : List Char) : List Char :=
  replaceAllWithin pattern by_ cs.length cs

end FlowScript.Text

namespace FlowScript

/-- Every line break of two characters becomes a single line feed. -/
def unixLines : List Char → List Char
  | [] => []
  | [c] => [c]
  | c :: d :: cs =>
    if c == '\r' && d == '\n' then '\n' :: unixLines cs else c :: unixLines (d :: cs)

end FlowScript
