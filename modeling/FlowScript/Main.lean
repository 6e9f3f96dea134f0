import FlowScript.Command.Basic
import Std.Time.DateTime.Timestamp

/-!
# The command line

Takes a picture of the files that the settings name, lets the command work on the picture and carries
out what it changed. No programs are started from here: every interpreter counts as missing.
-/

namespace FlowScript.CommandLine

/-- How many directories below each other are looked into. -/
def depthLimit : Nat := 64

/-- Adds what stands at a path, and what is below it, to a picture. What cannot be read is left out. -/
def survey (w : Workspace) (place : Location) (path : String) : Nat → IO Workspace
  | 0 => return w
  | depth + 1 => do
    try
      let entries ← (System.mkFilePath [path]).readDir
      let w := if place.isEmpty then w else w.set place .directory
      entries.foldlM
        (fun w e => survey w (place ++ [e.fileName]) (path ++ "/" ++ e.fileName) depth) w
    catch _ =>
      try
        return w.set place (.file (← IO.FS.readBinFile path).toList)
      catch _ => return w

/-- A directory can be listed. -/
def isListed (path : String) : IO Bool := do
  try
    let _ ← (System.mkFilePath [path]).readDir
    return true
  catch _ => return false

/-- Adds what a path names to a picture, and the directories that lead there. -/
def reach (w : Workspace) (path : String) : IO Workspace := do
  let start := Workspace.start path
  let segments := Text.cut '/' path.toList
  let placeOf (front : List (List Char)) : Location :=
    start ++ (Path.settle true front).map String.ofList
  let w ← (List.range segments.length).foldlM
    (fun w n => do
      let front := segments.take n
      let found ← isListed (String.ofList (Text.glue ['/'] front ++ ['/']))
      return if found && placeOf front ≠ [] then w.set (placeOf front) .directory else w)
    w
  if path.isEmpty then return w else survey w (placeOf segments) path depthLimit

/-- The variables of the environment that are settings. -/
def settingVariables : IO (List (String × String)) :=
  Flag.all.filterMapM (fun f => do
    let key := f.name.map (fun c => if c == '-' then '_' else c.toUpper)
    let name := Settings.variableFront ++ key
    return (← IO.getEnv name).map (fun value => (name, value)))

/-- The path of a location. -/
def pathOf (place : Location) : String :=
  "/".intercalate place

/-- Carries out what became of an entry. -/
def settle (before : Workspace) (place : Location) (e : Entry) : IO Unit :=
  match before.at? place, e with
  | some .directory, .directory => pure ()
  | _, .directory => IO.FS.createDirAll (pathOf place)
  | some (.file old), .file content =>
    if old = content then pure ()
    else IO.FS.writeBinFile (pathOf place) content.toByteArray
  | _, .file content => IO.FS.writeBinFile (pathOf place) content.toByteArray

/-- What the command sees. Reports are painted for a terminal. -/
def surroundings (arguments : List String) : IO Surroundings := do
  let a := (Arguments.read arguments).toOption.getD {}
  let config :=
    match a.value? "config" with
    | some (.text path) => path
    | _ => Settings.defaultFile
  let now ← Std.Time.Timestamp.now
  let plain := (← IO.getEnv "NO_COLOR").isSome || (← IO.getEnv "TERM") == some "dumb"
  let seen : Surroundings :=
    { files := ← reach {} config
      environment := ← settingVariables
      clock := .ok { seconds := now.toSecondsSinceUnixEpoch.val }
      interpreter := fun name => .ofProgram name (fun _ _ => { exit := .notFound })
      colored := !plain && (← (← IO.getStdout).isTty) }
  match Command.settings a seen with
  | .error _ => return seen
  | .ok s => return { seen with files := ← [s.flow, s.out, s.figures].foldlM reach seen.files }

end FlowScript.CommandLine

open FlowScript in
/-- Runs the command and tells by the exit code whether it failed. -/
def main (arguments : List String) : IO UInt32 := do
  let seen ← CommandLine.surroundings arguments
  let done := Command.run arguments seen
  done.files.entries.forM (fun (place, e) => CommandLine.settle seen.files place e)
  IO.print done.stdout
  IO.eprint done.stderr
  match done.error with
  | none => return 0
  | some e =>
    IO.eprintln ("Error: " ++ e.message)
    return 1
