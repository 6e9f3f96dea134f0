import FlowScript.Flow.Format
import FlowScript.Workspace.Basic
import FlowScript.Yaml.Encoding

/-!
# Flow files

Loading flows from, and saving them to, the files of a workspace; and finding the flow files below a
directory. Hidden directories and the directories of installed modules are not searched.
-/

namespace FlowScript

/-- The wording for a path whose extension implies no format. -/
def unsupportedFormat (path : String) : String :=
  "unsupported flow file format: " ++ path

/-- Why a flow file cannot be loaded. -/
inductive LoadError where
  | unsupported (path : String)
  | unreadable (e : FileError)
  | undecodable (path : String) (e : DecodeError)

/-- The wording of a loading error. -/
def LoadError.message : LoadError → String
  | unsupported path => unsupportedFormat path
  | unreadable e => "reading flow: " ++ e.message
  | undecodable path e => path ++ ": " ++ e.message

/-- Reads a flow from the bytes of a file. In JSON, bytes outside every character are replaced; YAML is
refused where it has such bytes. -/
def Flow.decodeFile (content : List UInt8) : Format → Except DecodeError Flow
  | .json => Flow.decode (Utf8.decode content) .json
  | .yaml => do Flow.decode (← (Yaml.characters content).mapError .yaml) .yaml

/-- Reads the flow in a file. -/
def Flow.load (w : Workspace) (path : String) : Except LoadError Flow :=
  match Format.ofPath? path with
  | none => .error (.unsupported path)
  | some format =>
    match w.read path with
    | .error e => .error (.unreadable e)
    | .ok content => (Flow.decodeFile content format).mapError (.undecodable path)

/-- Why a flow cannot be saved. -/
inductive SaveError where
  | unsupported (path : String)
  | unencodable (e : EncodeError)
  | unwritable (e : FileError)

/-- The wording of a saving error. -/
def SaveError.message : SaveError → String
  | unsupported path => unsupportedFormat path
  | unencodable e => e.message
  | unwritable e => e.message

/-- Writes a flow to a file. -/
def Flow.save (f : Flow) (w : Workspace) (path : String) : Except SaveError Workspace :=
  match Format.ofPath? path with
  | none => .error (.unsupported path)
  | some format =>
    match f.encode format with
    | .error e => .error (.unencodable e)
    | .ok text => (w.write path (Utf8.encode text)).mapError .unwritable

namespace Workspace

/-- A directory that the search for flow files leaves out. -/
def isSkipped (name : String) : Bool :=
  name.toList.head? == some '.' || name = "node_modules"

/-- The flow files below the directory at a location, whose path is given. Every step down takes one
from the depth. -/
def flowFilesWithin (w : Workspace) : (depth : Nat) → Location → (path : String) → List String
  | 0, _, _ => []
  | depth + 1, place, path =>
    (w.names place).flatMap (fun name =>
      let inner := Path.join path name
      match w.at? (place ++ [name]) with
      | some .directory =>
        if isSkipped name then [] else w.flowFilesWithin depth (place ++ [name]) inner
      | some (.file _) => if (Format.ofPath? inner).isSome then [inner] else []
      | none => [])

/-- The flow files at or below a path, in lexical order of each directory. -/
def flowFiles (w : Workspace) (path : String) : Except FileError (List String) :=
  match w.entry path, w.follow (start path) (splitAt '/' path) with
  | .ok .directory, .ok place => .ok (w.flowFilesWithin (w.entries.length + 1) place path)
  | .ok (.file _), _ => .ok (if (Format.ofPath? path).isSome then [path] else [])
  | .error fault, _ | .ok .directory, .error fault => .error ⟨"lstat", path, fault⟩

end Workspace

end FlowScript
