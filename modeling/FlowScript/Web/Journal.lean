import FlowScript.Graph.Cycle
import FlowScript.Log.Compact
import FlowScript.Run.Runner
import FlowScript.Web.Message

/-!
# The journal of the server

What is logged about requests, compilations, runs and subscriptions.
-/

namespace FlowScript.Web

open Log

/-- A number as an attribute. -/
def count (name : String) (n : Nat) : Attribute :=
  (name, .int n)

/-- A request has come in. -/
def requestStarted (id : String) (r : Request) : Record :=
  { level := Level.debug
    message := "request started"
    attributes := [ofRequest id, ("method", .text r.method), ("path", .text r.path),
      ("remoteAddr", .text r.client)] }

/-- A request has been answered. How urgent that is depends on the answer. -/
def requestEnded (id : String) (r : Request) (answer : Response) : Record :=
  let (level, message) :=
    if 500 ≤ answer.status then (Level.error, "request failed")
    else if 400 ≤ answer.status then (Level.warning, "request rejected")
    else (Level.info, "request completed")
  { level
    message
    attributes := [ofRequest id, ("method", .text r.method), ("path", .text r.path),
      count "status" answer.status, count "bytes" answer.body.utf8ByteSize,
      count "durationMs" 0] }

/-- A request came from another site. -/
def foreignRequest (id origin : String) : Record :=
  { level := Level.warning
    message := "cross-origin request rejected"
    attributes := [ofRequest id, ("origin", .text origin)] }

/-- What the compiler says about its work. Cycles are told before the clock is asked. -/
def compileRecords (id : String) (f : Flow) (r : Compiled) (error : Option InternalError) :
    List Record :=
  let g := Graph.ofFlow f
  let bound : List Attribute := [("component", .text "compiler"), ofRequest id]
  let fallback : List Record :=
    if g.isOrdered then []
    else
      [{ level := Level.debug
         message := "falling back to position order"
         bound
         attributes := [("flow", .text f.id), count "sorted" g.placed.length,
           count "nodes" g.nodes.length, count "cycles" g.cycles.length] }]
  let done : Record :=
    match error with
    | none =>
      { level := Level.debug
        message := "compiled flow"
        bound
        attributes := [("flow", .text f.id), count "nodes" r.order.length,
          count "imports" r.imports.length, count "diagnostics" r.diagnostics.length] }
    | some e =>
      { level := Level.error
        message := "compiler failed"
        attributes := [ofRequest id, ("flow", .text f.id), ("error", .fault e.message)] }
  fallback ++ [done]

/-- Subscribers could not be told of a compilation. -/
def publishFailed (id reason : String) : Record :=
  { level := Level.warning
    message := "failed to publish compilation"
    attributes := [ofRequest id, ("error", .fault reason)] }

/-- An event could not be written to a subscriber. -/
def streamBroken (id : String) (fault : Json.Fault) : Record :=
  { level := Level.warning
    message := "error writing SSE event"
    attributes := [ofRequest id, ("error", .fault ("failed to marshal event: json: error calling "
      ++ "MarshalJSON for type json.RawMessage: " ++ fault.message))] }

/-- A run ended before its output was counted. -/
def endsEarly : Option RunError → Bool
  | some (.figuresDir _) | some (.figure ..) => true
  | _ => false

/-- What is told about an attempt to run the script of a compilation. -/
def runRecords (id : String) (r : Compiled) (a : Attempt) : List Record :=
  let packages : Attribute := ("packages", .texts (packagesOf r.imports))
  let start : Record :=
    { level := Level.info
      message := "running flow"
      attributes := [ofRequest id, count "nodes" r.order.length, packages] }
  let installing : List Record :=
    if a.installed.isSome then
      [{ level := Level.debug
         message := "installing packages"
         attributes := [ofRequest id, packages] }]
    else []
  let warnings (o : Output) : List Record :=
    o.warnings.map (fun w =>
      { level := Level.warning
        message := "bad figure output"
        attributes := [ofRequest id, ("warning", .text w)] })
  let finished (o : Output) : List Record :=
    if endsEarly a.error then []
    else
      [{ level := Level.info
         message := "flow finished"
         attributes := [ofRequest id, count "lines" o.lines.length,
           count "figures" o.figures.length, ("failed", .bool a.error.isSome)] }]
  match a.error, a.run with
  | some .noScript, _ => []
  | _, none => start :: installing
  | _, some run => start :: installing ++ warnings run.output ++ finished run.output

/-- A new subscriber got events that were kept. -/
def replayed (topic : String) (events : Nat) : List Record :=
  if events = 0 then []
  else
    [{ level := Level.debug
       message := "replayed events to new subscriber"
       attributes := [("topic", .text topic), count "count" events] }]

end FlowScript.Web
