import FlowScript.Run.Output
import FlowScript.Run.Packages
import FlowScript.Script.Compile
import FlowScript.Text.Quoted
import FlowScript.Workspace.Basic

/-!
# Running scripts

A runner hands a compiled script to an interpreter, after installing the packages it imports if asked
to, interprets the output and writes the figures as files.
-/

namespace FlowScript

/-- What came of handing a script to an interpreter. -/
structure Execution where
  stdout : String := ""
  stderr : String := ""
  failure : Option String := none

/-- Something that runs scripts and installs packages. Installing gives the reason if it fails. -/
structure Interpreter where
  execute : (script : String) → Execution
  install : (packages : List String) → Option String

/-- How a program ended. -/
inductive Exit where
  | success
  | status (code : Nat)
  /-- The program could not be started. -/
  | notFound
  deriving DecidableEq

/-- The wording for a program that did not succeed. -/
def Exit.failure? (name : String) : Exit → Option String
  | success => none
  | status code => some ("exit status " ++ toString code)
  | notFound =>
    some (if name.toList.contains '/' then "fork/exec " ++ name ++ ": no such file or directory"
      else "exec: " ++ quoted name ++ ": executable file not found in $PATH")

/-- What a finished program left behind. -/
structure Finished where
  exit : Exit
  stdout : String := ""
  stderr : String := ""

/-- A program: what it does for arguments and an input. -/
abbrev Program := (arguments : List String) → (input : String) → Finished

/-- The interpreter that a program of the given name implements. The script is its input; packages are
installed by its own package manager. -/
def Interpreter.ofProgram (name : String) (program : Program) : Interpreter :=
  { execute := fun script =>
      let done := program ["-"] script
      ⟨done.stdout, done.stderr, (done.exit.failure? name).map (fun reason =>
        "python failed: " ++ reason ++ "\nStderr: " ++ done.stderr)⟩
    install := fun packages =>
      let done := program (["-m", "pip", "install", "--quiet"] ++ packages) ""
      (done.exit.failure? name).map (fun reason =>
        "pip install failed: " ++ reason ++ "\nOutput: " ++ done.stdout ++ done.stderr) }

/-- Runs scripts. -/
structure Runner where
  interpreter : Interpreter
  /-- Install the packages of a script before it runs. -/
  installs : Bool := false
  /-- The directory for figures; none are written when it is empty. -/
  figuresDir : String := ""

/-- The outcome of a run. -/
structure Run where
  packages : List String
  output : Output
  stderr : String
  /-- The paths of the written figures. -/
  files : List String := []

/-- The JSON form of a run. -/
def Run.toTree (r : Run) : Json.Tree :=
  .record ([("packages", if r.packages.isEmpty then .null else .texts r.packages),
      ("output", r.output.toTree)]
    ++ Json.textUnlessEmpty "stderr" r.stderr
    ++ if r.files.isEmpty then [] else [("files", .texts r.files)])

/-- Why a run failed. -/
inductive RunError where
  | noScript
  | install (reason : String)
  | lineTooLong
  | figuresDir (e : FileError)
  | figure (path : String) (e : FileError)
  | script (reason : String)

/-- The wording of a failed run. -/
def RunError.message : RunError → String
  | noScript => "no script to run"
  | install reason => "installing packages: " ++ reason
  | lineTooLong => "reading script output: bufio.Scanner: token too long"
  | figuresDir e => "creating figures directory: " ++ e.message
  | figure path e => "writing " ++ path ++ ": " ++ e.message
  | script reason => "running script: " ++ reason

/-- Everything that an attempt to run a script did. -/
structure Attempt where
  /-- The packages that were asked for, if any were. -/
  installed : Option (List String) := none
  /-- The interpreter was given the script. -/
  executed : Bool := false
  run : Option Run := none
  error : Option RunError := none
  files : Workspace

/-- The name of the file for the figure with an index. -/
def figureName (index : Nat) : String :=
  "figure-" ++ toString index ++ ".png"

/-- The path of the file for the figure with an index. -/
def figurePath (dir : String) (index : Nat) : String :=
  Path.join dir (figureName index)

/-- Writes figures into a directory, one after the other until one cannot be written. -/
def drawFigures (dir : String) (w : Workspace) :
    List Figure → Workspace × Except RunError (List String)
  | [] => (w, .ok [])
  | figure :: rest =>
    let path := figurePath dir figure.index
    match w.write path figure.image with
    | .error e => (w, .error (.figure path e))
    | .ok w =>
      let (w, written) := drawFigures dir w rest
      (w, written.map (path :: ·))

/-- Writes figures into a directory, which is created if it is missing. -/
def writeFigures (dir : String) (w : Workspace) (figures : List Figure) :
    Workspace × Except RunError (List String) :=
  match w.ensureDirectories dir.toList with
  | (w, some e) => (w, .error (.figuresDir e))
  | (w, none) => drawFigures dir w figures

/-- What follows the execution of a script: the output is interpreted and figures are written. A
script that failed still leaves its output. -/
def Runner.conclude (r : Runner) (packages : List String) (done : Execution) (w : Workspace) :
    Option Run × Option RunError × Workspace :=
  match Output.ofText? done.stdout with
  | none => (none, some .lineTooLong, w)
  | some output =>
    let run : Run := { packages, output, stderr := done.stderr }
    let failure := done.failure.map RunError.script
    if r.figuresDir.isEmpty || output.figures.isEmpty then (some run, failure, w)
    else
      match writeFigures r.figuresDir w output.figures with
      | (w, .error e) => (some run, some e, w)
      | (w, .ok files) => (some { run with files }, failure, w)

/-- Runs a script with the given import lines. -/
def Runner.attempt (r : Runner) (script : String) (imports : List String) (w : Workspace) :
    Attempt :=
  if script.isEmpty then { error := some .noScript, files := w }
  else
    let packages := packagesOf imports
    let asks := r.installs && !packages.isEmpty
    let installed := if asks then some packages else none
    let refused := if asks then r.interpreter.install packages else none
    match refused with
    | some reason => { installed, error := some (.install reason), files := w }
    | none =>
      let (run, error, files) := r.conclude packages (r.interpreter.execute script) w
      { installed, executed := true, run, error, files }

end FlowScript
