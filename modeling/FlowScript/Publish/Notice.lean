import FlowScript.Flow.Issue
import FlowScript.Publish.Broker
import FlowScript.Run.Runner

/-!
# Notices

What subscribers are told while flows are compiled and run: each notice has a topic, a type and data.
-/

namespace FlowScript

/-- The JSON form of an issue. Ids that do not apply are left out. -/
def Issue.toTree (i : Issue) : Json.Tree :=
  .record ([("kind", .text i.kind.name)] ++ Json.textUnlessEmpty "nodeId" i.nodeId
    ++ Json.textUnlessEmpty "portId" i.portId
    ++ Json.textUnlessEmpty "connectionId" i.connectionId ++ [("message", .text i.message)])

/-- What is told about a compilation. A list is absent if nothing was compiled. -/
structure Compilation where
  /-- The file of the flow, empty if it did not come from a file. -/
  source : String := ""
  flowId : String := ""
  flowName : String := ""
  script : String := ""
  imports : Option (List String) := none
  order : Option (List String) := none
  packages : Option (List String) := none
  diagnostics : Option (List Diagnostic) := none
  issues : List Issue := []
  /-- Why the flow could not be loaded or compiled, empty if it could. -/
  error : String := ""

namespace Compilation

/-- What is told about a compiled flow. -/
def ofCompiled (source : String) (f : Flow) (r : Compiled) (error : Option InternalError) :
    Compilation :=
  { source
    flowId := f.id
    flowName := f.name
    script := r.script
    imports := some r.imports
    order := some r.order
    packages := some (packagesOf r.imports)
    diagnostics := some r.diagnostics
    issues := f.issues
    error := (error.map InternalError.message).getD "" }

/-- A list that may be absent. -/
def listTree {α : Type} (write : α → Json.Tree) : Option (List α) → Json.Tree
  | none => .null
  | some items => .array (items.map write)

/-- The JSON form of a compilation. -/
def toTree (c : Compilation) : Json.Tree :=
  .record (Json.textUnlessEmpty "source" c.source
    ++ [("flowId", .text c.flowId), ("flowName", .text c.flowName), ("script", .text c.script),
      ("imports", listTree .text c.imports), ("order", listTree .text c.order),
      ("packages", listTree .text c.packages),
      ("diagnostics", listTree Diagnostic.toTree c.diagnostics)]
    ++ (if c.issues.isEmpty then [] else [("issues", .array (c.issues.map Issue.toTree))])
    ++ Json.textUnlessEmpty "error" c.error)

end Compilation

/-- What a run is known by. -/
inductive Subject where
  | file (path : String)
  | flow (id : String)

/-- The member that names a subject. -/
def Subject.member : Subject → String × Json.Tree
  | file path => ("source", .text path)
  | flow id => ("flowId", .text id)

/-- What subscribers are told. -/
inductive Notice where
  /-- The flow could not be loaded. -/
  | unloaded (c : Compilation)
  | compiled (c : Compilation)
  | running (s : Subject)
  | finished (r : Run)
  | failed (s : Subject) (reason : String)

namespace Notice

/-- The topic that a notice belongs to. -/
def topic : Notice → String
  | unloaded _ | compiled _ => Broker.compilationTopic
  | running _ | finished _ | failed .. => Broker.runTopic

/-- The name of what happened. -/
def type : Notice → String
  | compiled _ => "compiled"
  | running _ => "running"
  | finished _ => "finished"
  | unloaded _ | failed .. => "failed"

/-- What comes with a notice. -/
def data : Notice → Json.Tree
  | unloaded c | compiled c => c.toTree
  | running s => .record [s.member]
  | finished r => r.toTree
  | failed s reason => .record [("error", .text reason), s.member]

end Notice

end FlowScript
