import FlowScript.Command.Numeral
import FlowScript.Toml.Value

/-!
# Flags of the command line

The flags, what they say about themselves, and how arguments are read. A long flag takes its value
after an equals sign or from the next argument; short flags may share one argument. Switches and
counters need no value. Everything else is a plain argument.
-/

namespace FlowScript

open Toml (Value)

/-- What a flag takes. -/
inductive FlagKind where
  | text
  | switch
  | number
  /-- Counts how often the flag is given. -/
  | counter
  deriving DecidableEq

/-- A flag. -/
structure Flag where
  name : String
  short : Option Char := none
  kind : FlagKind := .text
  /-- What applies without the flag, in words; empty if that is nothing. -/
  fallback : String := ""
  purpose : String

namespace Flag

/-- All flags, in the order of their names. -/
def all : List Flag :=
  [{ name := "config", purpose := "Config file (default ./flowc.toml when present)" },
    { name := "figures", purpose := "Directory for figures produced by --run" },
    { name := "flow",
      purpose := "Flow file, or directory of flows, to compile (or pass it as the first argument)" },
    { name := "host", fallback := "\"127.0.0.1\"",
      purpose := "Interface for the web server; it runs posted flows with --run, so keep it local" },
    { name := "install", kind := .switch,
      purpose := "pip install imported packages before running" },
    { name := "json-logs", kind := .switch, purpose := "Log as JSON" },
    { name := "out", short := some 'o',
      purpose := "Write the script to this file instead of stdout" },
    { name := "port", kind := .number, fallback := "8080",
      purpose := "Port for the web server (only used with --web)" },
    { name := "python", fallback := "\"python3\"", purpose := "Python interpreter used by --run" },
    { name := "run", kind := .switch, purpose := "Execute the script after compiling" },
    { name := "verbose", short := some 'v', kind := .counter,
      purpose := "Increase log verbosity (-v debug, -vv trace)" },
    { name := "verbosity", purpose := "Log level: trace, debug, info, warn, error" },
    { name := "watch", short := some 'w', kind := .switch,
      purpose := "Recompile when the flow file changes" },
    { name := "web", kind := .switch, purpose := "Start the web server" }]

/-- The flag and its value, as the usage shows them. -/
def usageHead (f : Flag) : String :=
  let names :=
    match f.short with
    | some c => "  -" ++ c.toString ++ ", --" ++ f.name
    | none => "      --" ++ f.name
  match f.kind with
  | .text => names ++ " string"
  | .switch => names
  | .number => names ++ " int"
  | .counter => names ++ " count"

/-- The lines of the usage, their purposes one below the other. -/
def usageLines (flags : List Flag) : String :=
  let width := (flags.map (fun f => f.usageHead.length)).foldl max 0
  String.join (flags.map (fun f =>
    f.usageHead ++ String.ofList (List.replicate (width - f.usageHead.length + 3) ' ') ++ f.purpose
      ++ (if f.fallback.isEmpty then "" else " (default " ++ f.fallback ++ ")") ++ "\n"))

/-- How the command is used. -/
def usage : String :=
  "Usage: flowc [flags] <flow.json|flow.yaml>\n\n" ++ usageLines all

/-- The names of a flag in messages. -/
def title (f : Flag) : String :=
  match f.short with
  | some c => "-" ++ c.toString ++ ", --" ++ f.name
  | none => "--" ++ f.name

/-- The value of a flag that is given without one, if it may be. -/
def bareValue? (f : Flag) : Option String :=
  match f.kind with
  | .switch => some "true"
  | .counter => some "+1"
  | .text | .number => none

end Flag

/-- Why arguments cannot be read. -/
inductive FlagError where
  | help
  | badForm (argument : String)
  | unknown (name : String)
  /-- The character is shown, and the short flags from there on. -/
  | unknownShort (shown : Char) (cluster : String)
  | missingValue (name : String)
  | missingShortValue (short : Char) (cluster : String)
  | unfit (flag : Flag) (value complaint : String)

/-- A character between single quotes, as messages show it. -/
def quotedMark (c : Char) : String :=
  let body := if c == '\'' then ['\\', '\''] else if c == '"' then ['"'] else Text.quotedChar c
  String.ofList ('\'' :: (body ++ ['\'']))

/-- The wording of an argument error. -/
def FlagError.message : FlagError → String
  | help => "pflag: help requested"
  | badForm argument => "bad flag syntax: " ++ argument
  | unknown name => "unknown flag: --" ++ name
  | unknownShort c cluster =>
    "unknown shorthand flag: " ++ quotedMark c ++ " in -" ++ cluster
  | missingValue name => "flag needs an argument: --" ++ name
  | missingShortValue c cluster =>
    "flag needs an argument: " ++ quotedMark c ++ " in -" ++ cluster
  | unfit flag value complaint =>
    "invalid argument " ++ quoted value ++ " for " ++ quoted flag.title ++ " flag: " ++ complaint

/-- A flag that waits for its value, and the error if there is none. -/
structure Awaiting where
  flag : Flag
  error : FlagError

/-- What arguments have said so far. -/
structure Arguments where
  /-- The values of the given flags. -/
  given : List (String × Value) := []
  /-- The plain arguments. -/
  plain : List String := []
  awaiting : Option Awaiting := none
  /-- All further arguments are plain. -/
  plainOnly : Bool := false

namespace Arguments

/-- The value of a given flag. -/
def value? (a : Arguments) (name : String) : Option Value :=
  a.given.lookup name

/-- Gives a flag a value, in the place of an earlier one. -/
def put (a : Arguments) (name : String) (v : Value) : Arguments :=
  { a with given := (name, v) :: a.given.filter (fun e => e.1 != name) }

/-- The value that a text gives to a flag; counters go on from the count so far. -/
def valueOf (a : Arguments) (f : Flag) (s : String) : Except FlagError Value :=
  let number : Except FlagError Value :=
    match Numeral.read s with
    | .ok n => .ok (.int n)
    | .error e => .error (.unfit f s (Numeral.complaint s e))
  match f.kind with
  | .text => .ok (.text s)
  | .switch =>
    match TruthValue.read? s with
    | some b => .ok (.bool b)
    | none => .error (.unfit f s (TruthValue.complaint s))
  | .number => number
  | .counter =>
    if s = "+1" then
      match a.value? f.name with
      | some (.int n) => .ok (.int (n + 1))
      | _ => .ok (.int 1)
    else number

/-- Sets a flag by a text. -/
def apply (a : Arguments) (f : Flag) (s : String) : Except FlagError Arguments := do
  return a.put f.name (← a.valueOf f s)

/-- Reads a long flag, given without its two dashes. -/
def long (a : Arguments) (argument : List Char) : Except FlagError Arguments :=
  let name := String.ofList (argument.takeWhile (· != '='))
  if argument.head? == some '-' || argument.head? == some '=' then
    .error (.badForm ("--" ++ String.ofList argument))
  else
    match Flag.all.find? (fun f => f.name == name) with
    | none => .error (if name = "help" then .help else .unknown name)
    | some f =>
      match argument.dropWhile (· != '='), f.bareValue? with
      | _ :: value, _ => a.apply f (String.ofList value)
      | [], some value => a.apply f value
      | [], none => .ok { a with awaiting := some ⟨f, .missingValue name⟩ }

/-- The character that a message shows for a short flag: what has no short form in one byte is shown as
the first byte of its form in two. -/
def shownShort (c : Char) : Char :=
  if c.toNat < 0x80 then c else 'Ã'

/-- Reads short flags that share one argument, given without the dash. -/
def cluster (a : Arguments) : List Char → Except FlagError Arguments
  | [] => .ok a
  | c :: rest =>
    let shown := String.ofList (c :: rest)
    match Flag.all.find? (fun f => f.short == some c) with
    | none =>
      if Text.startsWith "test.".toList (c :: rest) then .ok a
      else .error (if c == 'h' then .help else .unknownShort (shownShort c) shown)
    | some f =>
      match rest, f.bareValue? with
      | '=' :: d :: value, _ => a.apply f (String.ofList (d :: value))
      | rest, some value => do (← a.apply f value).cluster rest
      | d :: value, none => a.apply f (String.ofList (d :: value))
      | [], none => .ok { a with awaiting := some ⟨f, .missingShortValue c shown⟩ }

/-- Reads one argument. -/
def step (a : Arguments) (argument : String) : Except FlagError Arguments :=
  match a.awaiting with
  | some w => { a with awaiting := none }.apply w.flag argument
  | none =>
    if a.plainOnly then .ok { a with plain := a.plain ++ [argument] }
    else
      match argument.toList with
      | ['-', '-'] => .ok { a with plainOnly := true }
      | '-' :: '-' :: rest => a.long rest
      | '-' :: c :: rest => a.cluster (c :: rest)
      | _ => .ok { a with plain := a.plain ++ [argument] }

/-- Reads all arguments. -/
def read (arguments : List String) : Except FlagError Arguments := do
  let a ← arguments.foldlM step {}
  match a.awaiting with
  | some w => throw w.error
  | none => return a

end Arguments

end FlowScript
