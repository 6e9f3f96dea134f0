import FlowScript.Text.Utf8
import FlowScript.Workspace.Path

/-!
# Workspaces

The directories and files that a session sees, as a value. Locations are lists of names from the
working directory on. Each operation follows a path segment by segment, so that it fails for the same
reason, in the same order, as a file system would.
-/

namespace FlowScript

/-- What stands at a location. -/
inductive Entry where
  | directory
  | file (content : List UInt8)

/-- Names from the working directory on. -/
abbrev Location := List String

/-- The entries of a file tree, apart from the working directory itself. -/
structure Workspace where
  entries : List (Location × Entry) := []

/-- Why a path cannot be used. -/
inductive FileFault where
  | missing
  | notDirectory
  | isDirectory
  | occupied
  | nameTooLong
  | invalid
  deriving DecidableEq

/-- The wording of a fault. -/
def FileFault.message : FileFault → String
  | missing => "no such file or directory"
  | notDirectory => "not a directory"
  | isDirectory => "is a directory"
  | occupied => "file exists"
  | nameTooLong => "file name too long"
  | invalid => "invalid argument"

/-- A failed operation on a path. -/
structure FileError where
  action : String
  path : String
  fault : FileFault

/-- The wording of a failed operation. -/
def FileError.message (e : FileError) : String :=
  e.action ++ " " ++ e.path ++ ": " ++ e.fault.message

namespace Workspace

/-- What stands at a location. The working directory always exists. -/
def at? (w : Workspace) (place : Location) : Option Entry :=
  if place.isEmpty then some .directory else w.entries.lookup place

/-- The most bytes that a name may have. -/
def nameLimit : Nat := 255

/-- The location of the root, above which there is nothing. -/
def root : Location := ["/"]

/-- The location that a segment leads to; what the segment is taken from has to be a directory. -/
def step (w : Workspace) (place : Location) (segment : String) : Except FileFault Location :=
  match w.at? place with
  | none => .error .missing
  | some (.file _) => .error .notDirectory
  | some .directory =>
    if segment.isEmpty || segment = "." then .ok place
    else if segment = ".." then .ok (if place = root then root else place.dropLast)
    else if nameLimit < segment.utf8ByteSize then .error .nameTooLong
    else .ok (place ++ [segment])

/-- Where a path starts. -/
def start (path : String) : Location :=
  if path.toList.head? == some '/' then root else []

/-- Follows segments. -/
def follow (w : Workspace) (place : Location) (segments : List String) :
    Except FileFault Location :=
  segments.foldlM w.step place

/-- A path that can be looked up at all. -/
def checked (path : String) : Except FileFault Unit :=
  if path.toList.contains '\x00' then .error .invalid
  else if path.isEmpty then .error .missing
  else .ok ()

/-- The entry that a path leads to. -/
def entry (w : Workspace) (path : String) : Except FileFault Entry := do
  checked path
  let place ← w.follow (start path) (splitAt '/' path)
  match w.at? place with
  | none => throw .missing
  | some e => return e

/-- Places an entry at a location, in the place of what stood there. -/
def set (w : Workspace) (place : Location) (e : Entry) : Workspace :=
  if w.entries.any (fun entry => entry.1 == place) then
    { entries := w.entries.map (fun entry => if entry.1 == place then (place, e) else entry) }
  else { entries := w.entries ++ [(place, e)] }

/-- The location of the last name of a path, and whether slashes follow that name. -/
def target (w : Workspace) (path : String) : Except FileFault (Location × Bool) := do
  checked path
  let back := (splitAt '/' path).reverse
  let names := back.dropWhile (·.isEmpty)
  match names with
  | [] => return (start path, true)
  | last :: before =>
    let place ← w.follow (start path) before.reverse
    return (← w.step place last, names.length < back.length)

/-- The content of the file at a path. -/
def read (w : Workspace) (path : String) : Except FileError (List UInt8) :=
  match w.entry path with
  | .error fault => .error ⟨"open", path, fault⟩
  | .ok .directory => .error ⟨"read", path, .isDirectory⟩
  | .ok (.file content) => .ok content

/-- Creates or overwrites the file at a path. -/
def write (w : Workspace) (path : String) (content : List UInt8) : Except FileError Workspace :=
  match w.target path with
  | .error fault => .error ⟨"open", path, fault⟩
  | .ok (_, true) => .error ⟨"open", path, .isDirectory⟩
  | .ok (place, false) =>
    match w.at? place with
    | some .directory => .error ⟨"open", path, .isDirectory⟩
    | _ => .ok (w.set place (.file content))

/-- A directory is at the path. -/
def isDirectory (w : Workspace) (path : String) : Bool :=
  match w.entry path with
  | .ok .directory => true
  | _ => false

/-- Creates one directory. -/
def makeDirectory (w : Workspace) (path : String) : Except FileError Workspace :=
  match w.target path with
  | .error fault => .error ⟨"mkdir", path, fault⟩
  | .ok (place, _) =>
    match w.at? place with
    | some _ => .error ⟨"mkdir", path, .occupied⟩
    | none => .ok (w.set place .directory)

/-- Creates one directory, unless it is there. -/
def ensureDirectory (w : Workspace) (path : String) : Workspace × Option FileError :=
  match w.makeDirectory path with
  | .ok w => (w, none)
  | .error e => (w, if w.isDirectory path then none else some e)

/-- Creates a directory and the directories above it. Those that could be created stay when that
fails further down. -/
def ensureDirectories (w : Workspace) (path : List Char) : Workspace × Option FileError :=
  match w.entry (String.ofList path) with
  | .ok .directory => (w, none)
  | .ok (.file _) => (w, some ⟨"mkdir", String.ofList path, .notDirectory⟩)
  | .error _ =>
    if path = [] ∨ Path.parent path = [] then w.ensureDirectory (String.ofList path)
    else
      match w.ensureDirectories (Path.parent path) with
      | (w, some e) => (w, some e)
      | (w, none) => w.ensureDirectory (String.ofList path)
termination_by path.length
decreasing_by
  rename_i h
  exact Path.length_parent_lt (fun hp => h (Or.inl hp))

/-- Creates a directory and the directories above it, or tells why that failed. -/
def makeDirectories (w : Workspace) (path : List Char) : Except FileError Workspace :=
  match w.ensureDirectories path with
  | (w, none) => .ok w
  | (_, some e) => .error e

/-- Creates a file and the directories above it; leaves the workspace as it is when that fails. -/
def put (w : Workspace) (path : String) (content : List UInt8) : Workspace :=
  let parent := Path.parent path.toList
  let w' := if parent.isEmpty then .ok w else w.makeDirectories parent
  match w' with
  | .error _ => w
  | .ok w' => (w'.write path content).toOption.getD w

/-- The names in the directory at a location, in lexical order. The root is in no directory. -/
def names (w : Workspace) (place : Location) : List String :=
  (w.entries.filterMap (fun entry =>
    if entry.1.dropLast == place && entry.1 != root then entry.1.getLast?
    else none)).mergeSort (fun a b => a ≤ b)

end Workspace

end FlowScript
