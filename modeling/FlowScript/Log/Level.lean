import FlowScript.Text.Letter
import FlowScript.Text.Quoted

/-!
# Log levels

A level is a number; some numbers have names, and the others are named by their distance to the named
level below them.
-/

namespace FlowScript.Log

open Text

/-- How urgent a record is. -/
abbrev Level := Int

namespace Level

def trace : Level := -8
def debug : Level := -4
def info : Level := 0
def warning : Level := 4
def error : Level := 8

/-- A name with a distance, which is left out when it is zero. -/
def named (base : String) (distance : Int) : String :=
  if distance == 0 then base
  else base ++ (if 0 < distance then "+" else "") ++ String.ofList (signedDecimal distance)

/-- The name of a level. -/
def name (l : Level) : String :=
  if l < info then named "DEBUG" (l - debug)
  else if l < warning then named "INFO" l
  else if l < error then named "WARN" (l - warning)
  else named "ERROR" (l - error)

/-- The name of a level in front of a line. The two shortest names are followed by one space more. -/
def label (l : Level) : String :=
  let name := if l == trace then "TRACE" else l.name
  "[" ++ name ++ "] " ++ if l == info || l == warning then " " else ""

/-- The level of a verbosity name or, without a name, of a count; fails for an unknown name. -/
def ofVerbosity (name : String) (count : Int) : Except String Level :=
  match lower name with
  | "trace" => .ok trace
  | "debug" => .ok debug
  | "info" => .ok info
  | "warn" | "warning" => .ok warning
  | "error" => .ok error
  | "" => .ok (if 2 ≤ count then trace else if count == 1 then debug else info)
  | _ => .error ("unknown verbosity " ++ quoted name)

end Level

end FlowScript.Log
