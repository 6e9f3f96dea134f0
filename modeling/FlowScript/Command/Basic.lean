import FlowScript.Command.Settings
import FlowScript.Log.Level
import FlowScript.Session.Pass

/-!
# The command

What the command does for its arguments. The script goes to the standard output unless it is written
to a file or is run; then the standard output carries the report and the output of the run.
-/

namespace FlowScript

/-- What the command sees. -/
structure Surroundings where
  files : Workspace
  environment : List (String × String) := []
  clock : Clock
  /-- The interpreter with the given name. -/
  interpreter : String → Interpreter
  colored : Bool := false

/-- Why the command fails. -/
inductive CommandError where
  | flags (e : FlagError)
  | settings (e : SettingsError)
  | flaw (f : Settings.Flaw)
  | verbosity (reason : String)
  | pass (e : PassError)
  /-- Serving and watching need more than one answer. -/
  | endless

/-- The wording of a failure. -/
def CommandError.message : CommandError → String
  | flags e => e.message
  | settings e => e.message
  | flaw f => f.message
  | verbosity reason => reason
  | pass e => e.message
  | endless => "--web and --watch need a running server"

/-- What the command leaves behind. -/
structure Aftermath where
  stdout : String := ""
  stderr : String := ""
  files : Workspace
  error : Option CommandError := none

namespace Command

/-- The settings that arguments and surroundings lead to. A plain argument names the flow. -/
def settings (a : Arguments) (s : Surroundings) : Except SettingsError Settings := do
  let path :=
    match a.value? "config" with
    | some (.text path) => path
    | _ => ""
  let found ← Settings.load s.files path s.environment a
  return match a.plain.head? with
    | some flow => { found with flow }
    | none => found

/-- Compiles, and runs if asked to, what the settings name. -/
def compile (settings : Settings) (s : Surroundings) : Aftermath :=
  let passes : PassSettings :=
    { runner :=
        if settings.run then
          some {
            interpreter := s.interpreter settings.python
            installs := settings.install
            figuresDir := settings.figures }
        else none
      out := settings.out
      showsScript := !settings.run
      reports := true
      colored := s.colored
      clock := s.clock }
  let (done, _, error) := passes.processPath settings.flow settings.run { files := s.files }
  { stdout := if settings.run then done.report else done.script
    stderr := if settings.run then "" else done.report
    files := done.files
    error := error.map .pass }

/-- What the command does for its arguments. -/
def run (arguments : List String) (s : Surroundings) : Aftermath :=
  let failed (e : CommandError) : Aftermath := { files := s.files, error := some e }
  match Arguments.read arguments with
  | .error .help => { stderr := Flag.usage, files := s.files }
  | .error e => failed (.flags e)
  | .ok a =>
    match settings a s with
    | .error e => failed (.settings e)
    | .ok settings =>
      match settings.flaw?, Log.Level.ofVerbosity settings.verbosity settings.verbose with
      | some f, _ => { failed (.flaw f) with stderr := Flag.usage }
      | none, .error reason => failed (.verbosity reason)
      | none, .ok _ =>
        if settings.web then failed .endless
        else
          let done := compile settings s
          if settings.watch && done.error.isNone then { done with error := some .endless } else done

end Command

end FlowScript
