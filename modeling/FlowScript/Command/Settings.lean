import FlowScript.Command.Flag
import FlowScript.Text.Letter
import FlowScript.Toml.Document
import FlowScript.Workspace.Basic

/-!
# Settings

What a session is to do. Settings come from four layers, each over the one before: what is built in, a
file, the environment and the flags. A layer may spell a value in another type, as long as the value
has a reading in the type of the setting.
-/

namespace FlowScript

open Toml (Value)

/-- The settings of a session. -/
structure Settings where
  /-- The flow file, or the directory of flow files. -/
  flow : String := ""
  /-- The file for the script, empty if it is shown. -/
  out : String := ""
  run : Bool := false
  python : String := "python3"
  /-- Install the packages of a script before it runs. -/
  install : Bool := false
  /-- The directory for figures. -/
  figures : String := ""
  watch : Bool := false
  web : Bool := false
  host : String := "127.0.0.1"
  port : Int := 8080
  verbosity : String := ""
  verbose : Int := 0
  jsonLogs : Bool := false
  deriving DecidableEq

/-- Why settings cannot be loaded. -/
inductive SettingsError where
  | unreadable (path : String) (e : FileError)
  | malformed (path : String)
  /-- The value of a setting has no reading in its type. -/
  | unfit (key : String)

/-- The wording of an error. -/
def SettingsError.message : SettingsError → String
  | unreadable path e => "failed to load " ++ path ++ ": " ++ e.message
  | malformed path => "failed to load " ++ path ++ ": malformed document"
  | unfit key => "failed to unmarshal config: no reading for " ++ quoted key

namespace Settings

/-- The integer part of a number in a machine word. What has none becomes the smallest word. -/
def wordOf : Toml.Real → Int
  | .finite x => if Toml.isWord x.truncate then x.truncate else -(Nat.pow 2 63 : Int)
  | .infinite _ | .undefined => -(Nat.pow 2 63 : Int)

/-- Numbers as the text of a setting: always without an exponent. -/
def layout : NumberLayout := ⟨fun _ => true, 1⟩

/-- The reading of a value as a text. -/
def text? : Value → Option String
  | .text s => some s
  | .bool b => some (if b then "1" else "0")
  | .int n => some (String.ofList (Text.signedDecimal n))
  | .real (.finite x) => some (String.ofList (layout.render x))
  | .real (.infinite negative) => some (if negative then "-Inf" else "+Inf")
  | .real .undefined => some "NaN"
  | .time | .array _ | .table _ => none

/-- The reading of a value as a truth value. -/
def truth? : Value → Option Bool
  | .bool b => some b
  | .int n => some (n != 0)
  | .real (.finite x) => some (x.mantissa != 0)
  | .real _ => some true
  | .text s => if s.isEmpty then some false else TruthValue.read? s
  | .time | .array _ | .table _ => none

/-- The reading of a value as an integer. -/
def int? : Value → Option Int
  | .int n => some n
  | .real x => some (wordOf x)
  | .bool b => some (if b then 1 else 0)
  | .text s => if s.isEmpty then some 0 else (Numeral.read s).toOption
  | .time | .array _ | .table _ => none

/-- Values by their keys; a later one stands over an earlier one. -/
abbrev Layer := List (String × Value)

/-- Reads the value of a key, if there is one. -/
def reading {α : Type} (layer : Layer) (read? : Value → Option α) (key : String) (builtIn : α) :
    Except SettingsError α :=
  match layer.reverse.lookup key with
  | none => .ok builtIn
  | some v =>
    match read? v with
    | some a => .ok a
    | none => .error (.unfit key)

/-- The settings that a layer gives over the built-in ones. -/
def ofLayer (layer : Layer) : Except SettingsError Settings := do
  let s : Settings := {}
  return {
    flow := ← reading layer text? "flow" s.flow
    out := ← reading layer text? "out" s.out
    run := ← reading layer truth? "run" s.run
    python := ← reading layer text? "python" s.python
    install := ← reading layer truth? "install" s.install
    figures := ← reading layer text? "figures" s.figures
    watch := ← reading layer truth? "watch" s.watch
    web := ← reading layer truth? "web" s.web
    host := ← reading layer text? "host" s.host
    port := ← reading layer int? "port" s.port
    verbosity := ← reading layer text? "verbosity" s.verbosity
    verbose := ← reading layer int? "verbose" s.verbose
    jsonLogs := ← reading layer truth? "json-logs" s.jsonLogs }

/-- The file that is read if none is named; it need not exist. -/
def defaultFile : String := "flowc.toml"

/-- The layer of a file. An empty path stands for the default file. -/
def fileLayer (w : Workspace) (path : String) : Except SettingsError Layer :=
  let source := if path.isEmpty then defaultFile else path
  match w.read source with
  | .error e =>
    if path.isEmpty && e.fault = .missing then .ok [] else .error (.unreadable source e)
  | .ok content =>
    let chars := Utf8.decode content
    if Utf8.encode chars = content then
      match Toml.parse? chars with
      | some members => .ok members
      | none => .error (.malformed source)
    else .error (.malformed source)

/-- The front of the names of variables that are settings. -/
def variableFront : String := "FLOWC_"

/-- The key that a variable stands for, empty if none. -/
def variableKey (name : String) : String :=
  match Text.dropFront? variableFront.toList name.toList with
  | none => ""
  | some rest =>
    String.ofList ((Text.lower (String.ofList rest)).toList.map (fun c => if c == '_' then '-' else c))

/-- A value below a key whose parts are divided by points. -/
def nested (v : Value) : List String → Value
  | [] => v
  | key :: path => .table [(key, nested v path)]

/-- The layer of the environment. -/
def variableLayer (environment : List (String × String)) : Layer :=
  environment.filterMap (fun (name, value) =>
    match variableKey name with
    | "" => none
    | key =>
      match splitAt '.' key with
      | [] => none
      | first :: path => some (first, nested (.text value) path))

/-- Loads settings from a file, the environment and the flags. -/
def load (w : Workspace) (path : String) (environment : List (String × String))
    (flags : Arguments) : Except SettingsError Settings := do
  ofLayer ((← fileLayer w path) ++ variableLayer environment ++ flags.given.reverse)

/-- Why settings cannot be used. -/
inductive Flaw where
  | port (n : Int)
  | noFlow
  | noInterpreter

/-- The wording of a flaw. -/
def Flaw.message : Flaw → String
  | port n => "invalid port " ++ String.ofList (Text.signedDecimal n)
  | noFlow => "no flow file given"
  | noInterpreter => "--run needs a python interpreter"

/-- What is wrong with settings, if anything. -/
def flaw? (s : Settings) : Option Flaw :=
  if s.port ≤ 0 || 65535 < s.port then some (.port s.port)
  else if !s.web && s.flow.isEmpty then some .noFlow
  else if s.run && s.python.isEmpty then some .noInterpreter
  else none

end Settings

end FlowScript
