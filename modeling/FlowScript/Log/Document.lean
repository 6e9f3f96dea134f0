import FlowScript.Json.Value
import FlowScript.Log.Level
import FlowScript.Log.Value

/-!
# Log records as JSON

One object per line: time, level, message and the attributes. Groups are objects; groups without a
name and groups that turn out empty leave no trace but the missing separator.
-/

namespace FlowScript.Log

open Text

/-- A character of a text in a log record. Only the commonest control characters have short
escapes. -/
def recordChar (c : Char) : List Char :=
  if c == '\x08' || c == '\x0c' then Json.unicodeEscape c.toNat else Json.escapeChar .plain c

/-- A text of a log record. -/
def recordText (s : String) : String :=
  String.ofList ('"' :: (s.toList.flatMap recordChar ++ ['"']))

/-- A value that is no group. A number that has no JSON form is told as an error. -/
def Scalar.document : Scalar → String
  | text s => recordText s
  | fault message => recordText message
  | int n => String.ofList (signedDecimal n)
  | count n => String.ofList (decimal n)
  | duration nanos => String.ofList (signedDecimal nanos)
  | real (.finite x) => String.ofList (NumberLayout.document.render x)
  | real x => recordText ("!ERROR:" ++ x.unsupported)
  | bool b => if b then "true" else "false"
  | time t => recordText t.fullStamp
  | texts items => String.ofList ((Json.Tree.texts items).compact .plain)
  | none => "null"
  | other _ document => document

/-- The text of a record so far and what goes in front of the next member. -/
structure Writer where
  done : String
  separator : String

namespace Writer

/-- Starts a member. -/
def key (w : Writer) (name : String) : Writer :=
  ⟨w.done ++ w.separator ++ recordText name ++ ":", ","⟩

/-- Adds text. -/
def put (w : Writer) (s : String) : Writer :=
  { w with done := w.done ++ s }

end Writer

mutual

/-- Adds an attribute; tells whether there was anything to add. -/
def writeAttribute (key : String) (w : Writer) : Settled → Writer × Bool
  | .group [] => (w, true)
  | .group members =>
    let start := if key.isEmpty then w else ⟨((w.key key).put "\x7b").done, ""⟩
    let (inner, any) := writeMembers start members
    if !any then (⟨w.done, inner.separator⟩, false)
    else if key.isEmpty then (inner, true)
    else (⟨inner.done ++ "\x7d", ","⟩, true)
  | .scalar s => if isVoid (key, s) then (w, false) else ((w.key key).put s.document, true)

/-- Adds attributes; tells whether any of them was added. -/
def writeMembers (w : Writer) : List (String × Settled) → Writer × Bool
  | [] => (w, false)
  | (key, v) :: rest =>
    let (w, first) := writeAttribute key w v
    let (w, others) := writeMembers w rest
    (w, first || others)

end

/-- The line of a record that is written at a moment, with the attributes that every record has and
its own. -/
def documentLine (now : Nat) (level : Level) (time message : String)
    (bound attributes : List Attribute) : String :=
  let head : Writer :=
    ⟨"\x7b\"time\":" ++ recordText time ++ ",\"level\":" ++ recordText level.name ++ ",\"msg\":"
      ++ recordText message, ","⟩
  let (w, _) := writeMembers head (settledMembers now bound)
  let (full, any) := writeMembers w (settledMembers now attributes)
  (if any then full.done else w.done) ++ "\x7d\n"

end FlowScript.Log
