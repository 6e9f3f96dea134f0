import FlowScript.Script.Block
import FlowScript.Time.Calendar

/-!
# Compiling a flow

The script of a flow: a header, the imports, the function definitions and a driver that runs the
nodes in order. Compiling a flow never fails; only a clock that cannot tell the time stops it, and
then the script is an error banner.
-/

namespace FlowScript

open Script

/-- What a compilation gives. -/
structure Compiled where
  script : String
  imports : List String
  /-- Node ids in the order of their blocks. -/
  order : List String
  diagnostics : List Diagnostic
  /-- The time in the header, empty for an error banner. -/
  generatedAt : String

namespace Compiled

/-- The findings that are warnings. -/
def warnings (r : Compiled) : List Diagnostic :=
  r.diagnostics.filter (fun d => d.severity = .warning)

/-- The line of the header that tells the time. -/
def headerStamp (stamp : String) : String :=
  "Generated: " ++ stamp

/-- What normalized results show in place of a time. -/
def normalStamp : String := "<timestamp>"

/-- The result with its time made neutral, so that results of different runs can be compared. -/
def normalized (r : Compiled) : Compiled :=
  { r with
    script :=
      if r.generatedAt.isEmpty then r.script
      else
        String.ofList (Text.replaceFirst (headerStamp r.generatedAt).toList
          (headerStamp normalStamp).toList r.script.toList)
    generatedAt := normalStamp }

end Compiled

namespace Script

/-- The header of a script. -/
def header (f : Flow) (stamp : String) : String :=
  "\"\"\"\nFlow: " ++ String.ofList (docText f.name.toList) ++ "\nFlow ID: "
    ++ String.ofList (docText f.id.toList) ++ "\n" ++ Compiled.headerStamp stamp ++ "\n\"\"\"\n\n"

/-- A definition between its two comments. -/
def Definition.text (d : Definition) : String :=
  "# --- Node: " ++ remarkText d.nodeName ++ " (" ++ remarkText d.nodeId
    ++ ") function definition ---\n" ++ String.ofList d.body ++ "\n# --- End of "
    ++ remarkText d.nodeName ++ " function definition ---"

/-- The function that runs the blocks. -/
def driver (blocks : List String) : String :=
  "def run_flow():\n" ++ indent ++ "\"\"\"Run every node of the flow in dependency order.\"\"\"\n"
    ++ indent ++ "print(\"Starting flow execution...\")\n\n"
    ++ (if blocks.isEmpty then "" else String.intercalate "\n\n" blocks ++ "\n\n")
    ++ indent ++ "print(\"Flow execution finished.\")\n"
    ++ "\n\nif __name__ == \"__main__\":\n" ++ indent ++ "run_flow()\n"

/-- The parts of a compilation that do not depend on the time. -/
structure Plan where
  nodes : List Placed
  collected : Collected
  ordering : List Diagnostic

/-- Orders and gathers the nodes of a flow. -/
def Plan.ofFlow (f : Flow) : Plan :=
  let ordering := Ordering.ofGraph (Graph.ofFlow f)
  let nodes := placedNodes f.liveNodes ordering.places
  ⟨nodes, collect nodes, ordering.diagnostics⟩

/-- The text of a script. -/
def assemble (f : Flow) (plan : Plan) (stamp : String) : String :=
  header f stamp ++ String.intercalate "\n" plan.collected.imports ++ "\n\n\n"
    ++ String.join (plan.collected.definitions.map (fun d => d.text ++ "\n\n\n"))
    ++ driver (plan.nodes.map (block f plan.collected))

end Script

/-- Compiles a flow at a time given by its stamp. -/
def Flow.compileAt (f : Flow) (stamp : String) : Compiled :=
  let plan := Plan.ofFlow f
  { script := assemble f plan stamp
    imports := plan.collected.imports
    order := plan.nodes.map (·.node.id)
    diagnostics := plan.ordering ++ plan.collected.diagnostics
      ++ plan.nodes.flatMap (inputNotes f plan.collected)
    generatedAt := stamp }

/-- A clock: the time, or the reason why it cannot be told. -/
abbrev Clock := Except String Moment

/-- The compiler met something it cannot handle. -/
structure InternalError where
  reason : String

/-- The wording of an internal error. -/
def InternalError.message (e : InternalError) : String :=
  "internal compiler error: " ++ e.reason

/-- The result that stands for a failed compilation: a banner that runs nothing. -/
def Compiled.ofError (e : InternalError) : Compiled :=
  { script := errorBanner "Error compiling flow" (some e.message)
    imports := [], order := [], diagnostics := [], generatedAt := "" }

/-- Compiles a flow by a clock. A clock that fails gives a banner and the error. -/
def Flow.compile (f : Flow) (clock : Clock) : Compiled × Option InternalError :=
  match clock with
  | .ok now => (f.compileAt now.utc.stamp, none)
  | .error reason => (Compiled.ofError ⟨reason⟩, some ⟨reason⟩)

end FlowScript
