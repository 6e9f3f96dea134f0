import FlowScript.Flow.File
import FlowScript.Publish.Notice
import FlowScript.Report.Summary
import FlowScript.Watch.Change

/-!
# Passes over flow files

A pass loads a flow file, compiles it, writes the script and, if asked to, runs it. What a pass leaves
behind, apart from its outcome, is added to a session: files, scripts, reports and notices.
-/

namespace FlowScript

/-- How passes are made. -/
structure PassSettings where
  /-- What runs scripts; without it nothing is run. -/
  runner : Option Runner := none
  /-- The file for scripts, empty if they are only shown. -/
  out : String := ""
  /-- Scripts without a file are shown. -/
  showsScript : Bool := true
  reports : Bool := false
  colored : Bool := false
  clock : Clock

/-- What passes have left behind. -/
structure Session where
  files : Workspace
  /-- The scripts that were shown. -/
  script : String := ""
  report : String := ""
  notices : List Notice := []

/-- What came of one flow file. -/
structure Outcome where
  path : String
  flow : Flow
  issues : List Issue
  result : Compiled
  run : Option Run := none

/-- Why a pass failed. -/
inductive PassError where
  | load (e : LoadError)
  | unwritten (e : FileError)
  | internal (e : InternalError)
  | run (e : RunError)
  /-- The path to look for flow files at cannot be used. -/
  | noTarget (e : FileError)
  | search (path : String) (e : FileError)
  | noFlows (path : String)
  /-- Several scripts would end up in one file. -/
  | crowded (count : Nat) (out : String)

/-- The wording of a failed pass. -/
def PassError.message : PassError → String
  | load e => e.message
  | unwritten e => "writing script: " ++ e.message
  | internal e => e.message
  | run e => e.message
  | noTarget e => e.message
  | search path e => "searching " ++ path ++ ": " ++ e.message
  | noFlows path => "no flow files found in " ++ path
  | crowded count out => "cannot write the scripts of " ++ toString count ++ " flows to " ++ out

namespace Session

/-- Tells subscribers something. -/
def tell (s : Session) (n : Notice) : Session :=
  { s with notices := s.notices ++ [n] }

/-- Adds to the report. -/
def tellUser (s : Session) (text : String) : Session :=
  { s with report := s.report ++ text }

end Session

namespace PassSettings

/-- Writes a script to where scripts go. -/
def place (p : PassSettings) (script : String) (s : Session) : Except FileError Session :=
  if !p.out.isEmpty then do
    return { s with files := ← s.files.write p.out (Utf8.encode script.toList) }
  else if p.showsScript then .ok { s with script := s.script ++ script }
  else .ok s

/-- Runs the script of an outcome. Subscribers are told before and after. -/
def execute (p : PassSettings) (runner : Runner) (o : Outcome) (s : Session) :
    Session × Outcome × Option PassError :=
  let subject := Subject.file o.path
  let s := s.tell (.running subject)
  let attempt := runner.attempt o.result.script o.result.imports s.files
  let s := { s with files := attempt.files }
  let s :=
    match attempt.run with
    | none => s
    | some run =>
      let s := s.tell (.finished run)
      if p.reports then s.tellUser (runReport p.colored run.output run.files) else s
  let o := { o with run := attempt.run }
  match attempt.error with
  | none => (s, o, none)
  | some e => (s.tell (.failed subject e.message), o, some (.run e))

/-- One pass over a flow file. There is no outcome if the file cannot be loaded. -/
def process (p : PassSettings) (path : String) (runs : Bool) (s : Session) :
    Session × Option Outcome × Option PassError :=
  match Flow.load s.files path with
  | .error e => (s.tell (.unloaded { source := path, error := e.message }), none, some (.load e))
  | .ok flow =>
    let (result, internal) := flow.compile p.clock
    let o : Outcome := { path, flow, issues := flow.issues, result }
    let s := s.tell (.compiled (.ofCompiled path flow result internal))
    match p.place result.script s with
    | .error e => (s, some o, some (.unwritten e))
    | .ok s =>
      let s :=
        if p.reports then s.tellUser (compileReport p.colored path flow o.issues result) else s
      match runs, p.runner, internal with
      | true, some runner, none =>
        let (s, o, error) := p.execute runner o s
        (s, some o, error)
      | _, _, internal => (s, some o, internal.map .internal)

/-- The flow files that a path stands for: the file itself or those below the directory. -/
def targets (w : Workspace) (path : String) : Except PassError (List String) :=
  match w.entry path with
  | .error fault => .error (.noTarget ⟨"stat", path, fault⟩)
  | .ok (.file _) => .ok [path]
  | .ok .directory =>
    match w.flowFiles path with
    | .error e => .error (.search path e)
    | .ok [] => .error (.noFlows path)
    | .ok files => .ok files

/-- Passes over several files, one after the other: the session, the outcomes and the first error. Each
file comes with the settings of its pass: time goes on, and a program need not do the same again. -/
def processAll (runs : Bool) :
    List (PassSettings × String) → Session → Session × List Outcome × Option PassError
  | [], s => (s, [], none)
  | (p, path) :: rest, s =>
    let (s, outcome, error) := p.process path runs s
    let (s, outcomes, later) := processAll runs rest s
    (s, outcome.toList ++ outcomes, error.or later)

/-- Passes over several files under the same settings. -/
def processEach (p : PassSettings) (runs : Bool) (paths : List String) (s : Session) :
    Session × List Outcome × Option PassError :=
  processAll runs (paths.map (fun path => (p, path))) s

/-- Passes over every flow file that a path stands for. -/
def processPath (p : PassSettings) (path : String) (runs : Bool) (s : Session) :
    Session × List Outcome × Option PassError :=
  match targets s.files path with
  | .error e => (s, [], some e)
  | .ok files =>
    if 1 < files.length && !p.out.isEmpty then (s, [], some (.crowded files.length p.out))
    else p.processEach runs files s

/-- Passes over the files of a reaction; failures do not end a session. -/
def handle (p : PassSettings) (r : Reaction) (s : Session) : Session :=
  if r.recompile then (p.processEach r.rerun r.changed s).1 else s

end PassSettings

end FlowScript
