import FlowScript.Log.Level
import FlowScript.Log.Value

/-!
# Compact log lines

One line per record: level, time of day, message, and the attributes after a bar. Members of groups
have dotted names. Request ids are cut short, durations have their unit, and errors are quoted.
Attributes that are bound to a handler are written once, when they are bound.
-/

namespace FlowScript.Log

/-- A text is quoted when it would not be taken for one word. -/
def needsQuotes (s : String) : Bool :=
  s.isEmpty || s.toList.any (fun c => c == ' ' || c == '\t' || c == '\n' || c == '"' || c == '=')

/-- A value after its name. -/
def Scalar.compact : Scalar → String
  | text s => if needsQuotes s then quoted s else s
  | time t => t.stamp
  | s => s.show

/-- The number of bytes that a request id is cut to. -/
def requestIdSize : Nat := 8

/-- An attribute that is no group, led by a space, below the groups that the path names. -/
def scalarText (path key : String) (s : Scalar) : String :=
  let bytes := Utf8.encode s.show.toList
  if isVoid (key, s) then ""
  else if key = "requestID" && requestIdSize < bytes.length then
    " req=" ++ String.ofList (Utf8.decode (bytes.take requestIdSize))
  else if key = "durationMs" then " duration=" ++ s.show ++ "ms"
  else if key = "error" then " error=" ++ quoted s.show
  else " " ++ path ++ key ++ "=" ++ s.compact

mutual

/-- An attribute below the groups that the path names. -/
def attributeText (path key : String) : Settled → String
  | .scalar s => scalarText path key s
  | .group members => memberTexts (if key.isEmpty then path else path ++ key ++ ".") members

/-- The attributes of a group. -/
def memberTexts (path : String) : List (String × Settled) → String
  | [] => ""
  | (key, v) :: rest => attributeText path key v ++ memberTexts path rest

end

/-- Writes records as compact lines. -/
structure Handler where
  /-- Records below this level are dropped. -/
  level : Level := Level.info
  /-- The groups that attributes added later belong to. -/
  path : String := ""
  /-- The text of the attributes that every record gets. -/
  bound : String := ""

namespace Handler

/-- Gives every record some attributes, as they are at this moment. -/
def bind (h : Handler) (now : Nat) (attributes : List Attribute) : Handler :=
  { h with bound := h.bound ++ memberTexts h.path (settledMembers now attributes) }

/-- Puts attributes added later into a group. -/
def enter (h : Handler) (name : String) : Handler :=
  if name.isEmpty then h else { h with path := h.path ++ name ++ "." }

/-- The line of a record that is written at a moment, shown as a time of day; none when its level is
too low. -/
def line? (h : Handler) (now : Nat) (level : Level) (time message : String)
    (attributes : List Attribute) : Option String :=
  if level < h.level then none
  else
    let shown := h.bound ++ memberTexts h.path (settledMembers now attributes)
    some (level.label ++ time ++ " " ++ message ++ (if shown.isEmpty then "" else " |" ++ shown)
      ++ "\n")

end Handler

/-- A record before it is written: what happened, how urgent it is and what belongs to it. -/
structure Record where
  level : Level
  message : String
  /-- The attributes of whoever logs. -/
  bound : List Attribute := []
  attributes : List Attribute := []

/-- The attribute that ties a record to a request. -/
def ofRequest (id : String) : Attribute :=
  ("requestID", .text id)

/-- The compact lines of records that are written at a moment. Records below the level of the handler
are left out. -/
def Handler.lines (h : Handler) (now : Nat) (time : String) (records : List Record) : String :=
  String.join (records.filterMap (fun r =>
    (h.bind now r.bound).line? now r.level time r.message r.attributes))

end FlowScript.Log
