import FlowScript.Text.Hex
import FlowScript.Workspace.Basic

/-!
# Changes of flow files

Notifications about flow files come in bursts. A batch gathers them and settles, when it is released,
which files were edited and which are gone: a file that was removed counts as edited if it is there
again. A reaction says what has to be done about a change.
-/

namespace FlowScript

/-- What happened to files. -/
inductive ChangeKind where
  /-- Flow files were written or created. -/
  | edited
  /-- Flow files were removed or renamed away. -/
  | removed
  /-- A change of another kind, which is passed over. -/
  | other (code : Int)
  deriving DecidableEq

namespace ChangeKind

/-- The kind with a code. -/
def ofCode (code : Int) : ChangeKind :=
  if code == 0 then edited else if code == 1 then removed else other code

/-- The name of a kind. -/
def name : ChangeKind → String
  | edited => "flow"
  | removed => "removed"
  | other code => "ChangeType(" ++ String.ofList (Text.signedDecimal code) ++ ")"

end ChangeKind

/-- One change of some files. -/
structure Change where
  kind : ChangeKind
  paths : List String

/-- What a change calls for. -/
structure Reaction where
  /-- The changed flows are compiled again. -/
  recompile : Bool := false
  /-- The new scripts are run. -/
  rerun : Bool := false
  /-- Flows that are gone. -/
  lost : List String := []
  changed : List String := []

/-- What a change calls for; scripts are run only if asked for and only if something is compiled. A
flow that is gone keeps its last script. -/
def Change.reaction (c : Change) (runs : Bool) : Reaction :=
  match c.kind with
  | .edited =>
    let recompile := !c.paths.isEmpty
    { recompile, rerun := runs && recompile, changed := c.paths }
  | .removed => { lost := c.paths }
  | .other _ => {}

/-- The changes of a burst: the files mentioned as edited and as removed, each once. -/
structure Batch where
  edited : List String := []
  removed : List String := []

namespace Batch

/-- Adds the paths that are not there yet. -/
def insertNew (known paths : List String) : List String :=
  paths.foldl (fun known path => if known.contains path then known else known ++ [path]) known

/-- Takes up a change. A file that is edited after its removal is back. -/
def add (b : Batch) (c : Change) : Batch :=
  match c.kind with
  | .edited =>
    { edited := insertNew b.edited c.paths
      removed := b.removed.filter (fun path => !c.paths.contains path) }
  | .removed => { b with removed := insertNew b.removed c.paths }
  | .other _ => b

/-- The changes that a batch amounts to, given which files exist. -/
def release (b : Batch) (isThere : String → Bool) : List Change :=
  let edited := b.removed.filter isThere
    ++ b.edited.filter (fun path => !b.removed.contains path)
  let gone := b.removed.filter (fun path => !isThere path)
  (if edited.isEmpty then [] else [⟨.edited, edited⟩])
    ++ if gone.isEmpty then [] else [⟨.removed, gone⟩]

end Batch

/-- Something stands at the path. -/
def Workspace.hasEntry (w : Workspace) (path : String) : Bool :=
  match w.entry path with
  | .ok _ => true
  | .error _ => false

end FlowScript
