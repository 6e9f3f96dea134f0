import FlowScript.Flow.Document
import FlowScript.Publish.Notice
import FlowScript.Source.Signature
import FlowScript.Template.Catalog
import FlowScript.Web.Journal
import FlowScript.Web.MediaType
import FlowScript.Web.Origin
import FlowScript.Web.Page

/-!
# The web server

The server compiles and runs posted flows, tells subscribers about it, and serves templates and the
web page. It answers one request after the other, so a request is a step from one server to the next.
Requests that a browser sends for another site are refused.
-/

namespace FlowScript.Web

open Log

/-- A server with what it remembers. -/
structure Server where
  catalog : Option Catalog := none
  /-- What runs scripts; without it nothing is run. -/
  runner : Option Runner := none
  clock : Clock
  ids : Supply
  files : Workspace := {}
  /-- The scripts that were handed to the interpreter, oldest first. -/
  executed : List String := []
  broker : Broker := .forFlows
  /-- The latest compilation. -/
  latest : Option Compilation := none
  /-- What was logged, oldest first. -/
  journal : List Record := []

/-- What a request asks for. -/
inductive Route where
  | subscribe (topic : String)
  | compile
  | run
  | parse
  | latest
  | templates
  | template (name : String)
  | asset

/-- What a method and a path ask for. Everything else is the path of an asset. -/
def Route.of (method path : String) : Route :=
  match method, splitAt '/' path with
  | "GET", ["", "api", "subscribe", topic] => if topic.isEmpty then .asset else .subscribe topic
  | "POST", ["", "api", "compile"] => .compile
  | "POST", ["", "api", "run"] => .run
  | "POST", ["", "api", "parse"] => .parse
  | "GET", ["", "api", "compilation"] => .latest
  | "GET", ["", "api", "templates"] => .templates
  | "GET", ["", "api", "templates", name] => if name.isEmpty then .asset else .template name
  | _, _ => .asset

/-- The most bytes of a body that are read; flows carry previews of files. -/
def bodyLimit : Nat := 32 * 1024 * 1024

/-- The number of characters at the start of a text that fit into a number of bytes. -/
def fitting (limit : Nat) (cs : List Char) : Nat :=
  (cs.foldl
    (fun (count, size) c =>
      let size := size + c.utf8Size
      (if size ≤ limit then count + 1 else count, size))
    (0, 0)).1

/-- A value whose end shows without the character behind it. -/
def endsItself : Json.Tree → Bool
  | .array _ | .object _ => true
  | _ => false

/-- Reads the first document of a body; fails with the reason. A document that goes on behind the
limit is refused. -/
def readBody {α : Type} (read : Json.Written → Except DocumentError α) (body : String) :
    Except String α :=
  let isLong := bodyLimit < body.utf8ByteSize
  let text := if isLong then body.toList.take (fitting bodyLimit body.toList) else body.toList
  let tooLong : Except String α := .error "http: request body too large"
  match Json.Written.first text with
  | .error .cutShort =>
    if isLong then tooLong
    else .error (if text.all Json.isGap then "EOF" else "unexpected EOF")
  | .error fault => .error fault.message
  | .ok (w, rest) =>
    if isLong && rest.isEmpty && !endsItself w.tree then tooLong
    else (read w).mapError DocumentError.message

/-- Reads the source of a request to parse it. -/
def readSource (w : Json.Written) : Except DocumentError String :=
  Reading.run (Reading.record "web.ParseRequest"
    (fun old key value =>
      if Text.sameFold key "code" then
        Reading.inside "ParseRequest" "code" (Reading.text old value.tree)
      else return old)
    "" w)

/-- The answer to a body that is not declared as JSON. -/
def wrongType : Response := .error 415 "request body must be application/json"

/-- Goes on with what a body holds, or gives the answer to a body that cannot be read. -/
def withBody {α : Type} (r : Request) (read : Json.Written → Except DocumentError α)
    (what : String) : Except Response α :=
  if !isJsonType (r.header "Content-Type") then .error wrongType
  else (readBody read r.body).mapError (fun e => .error 400 ("invalid " ++ what ++ ": " ++ e))

/-- The members of the answer to a compilation. -/
def compiledMembers (r : Compiled) (f : Flow) : List (String × Json.Tree) :=
  [("script", .text r.script), ("imports", .texts r.imports), ("order", .texts r.order),
    ("diagnostics", .array (r.diagnostics.map Diagnostic.toTree)),
    ("packages", .texts (packagesOf r.imports)), ("issues", .array (f.issues.map Issue.toTree)),
    ("generatedAt", .text r.generatedAt)]

/-- The JSON form of a signature. -/
def signatureTree (s : Signature) : Json.Tree :=
  .record [("name", .text s.name), ("inputs", .texts s.inputs), ("outputs", .texts s.outputs)]

/-- The JSON form of a template with the names of all templates that it needs. -/
def closedTemplateTree (t : Template) (needs : List String) : Json.Tree :=
  match t.toTree with
  | .object members => .object (members ++ [("closure".toList, .texts needs)])
  | other => other

namespace Server

/-- Adds records to the journal. -/
def log (s : Server) (records : List Record) : Server :=
  { s with journal := s.journal ++ records }

/-- Publishes an event; a closed broker is left as it is. The first part tells whether it was open. -/
def publish (s : Server) (topic type : String) (data : Json.Tree) : Bool × Server :=
  match s.broker.publish? topic type data with
  | some broker => (true, { s with broker })
  | none => (false, s)

/-- Tells subscribers something. -/
def tell (s : Server) (n : Notice) : Bool × Server :=
  s.publish n.topic n.type n.data

/-- Publishes a compilation under a topic and remembers it as the latest if it is the topic of
compilations. -/
def publishCompilation (s : Server) (topic type : String) (c : Compilation) : Bool × Server :=
  let s := if topic = Broker.compilationTopic then { s with latest := some c } else s
  s.publish topic type c.toTree

/-- Compiles a flow and tells subscribers. -/
def compile (s : Server) (id : String) (f : Flow) : Compiled × Server :=
  let (r, error) := f.compile s.clock
  let notice := Compilation.ofCompiled "" f r error
  let s := s.log (compileRecords id f r error)
  match s.publishCompilation Broker.compilationTopic "compiled" notice with
  | (true, s) => (r, s)
  | (false, s) => (r, s.log [publishFailed id closedMessage])

/-- Compiles a posted flow. -/
def answerCompile (s : Server) (id : String) (r : Request) : Response × Server :=
  match withBody r Flow.ofWritten "flow" with
  | .error refusal => (refusal, s)
  | .ok f =>
    let (compiled, s) := s.compile id f
    (.json 200 (.record (compiledMembers compiled f)), s)

/-- Compiles and runs a posted flow. -/
def answerRun (s : Server) (id : String) (r : Request) : Response × Server :=
  match s.runner with
  | none => (.error 501 "script execution is disabled", s)
  | some runner =>
    match withBody r Flow.ofWritten "flow" with
    | .error refusal => (refusal, s)
    | .ok f =>
      let (compiled, s) := s.compile id f
      let subject := Subject.flow f.id
      let s := (s.tell (.running subject)).2
      let attempt := runner.attempt compiled.script compiled.imports s.files
      let executed := s.executed ++ if attempt.executed then [compiled.script] else []
      let s := { s with files := attempt.files, executed }.log (runRecords id compiled attempt)
      let s :=
        match attempt.error, attempt.run with
        | some e, _ => (s.tell (.failed subject e.message)).2
        | none, some run => (s.tell (.finished run)).2
        | none, none => s
      (.json 200 (.record (compiledMembers compiled f
        ++ (match attempt.run with
          | none => []
          | some run => [("run", run.toTree)])
        ++ Json.textUnlessEmpty "error" ((attempt.error.map RunError.message).getD ""))), s)

/-- Subscribes to a topic. The subscriber gets what is kept, and leaves when its patience ends. -/
def answerSubscribe (s : Server) (id topic : String) (patience : Nat) : Response × Server :=
  if topic ≠ Broker.compilationTopic ∧ topic ≠ Broker.runTopic then
    (.plain 404 ("unknown topic " ++ quoted topic), s)
  else
    match s.broker.subscribe? topic with
    | none => (.plain 503 closedMessage, s)
    | some (place, broker) =>
      let (events, _, broker) := broker.drain place
      let s := { s with broker := broker.unsubscribe place }
      let (sent, fault) := Event.stream (events.take patience)
      ({ headers := [("Content-Type", "text/event-stream"), ("Cache-Control", "no-cache"),
           ("Connection", "keep-alive")]
         body := ": connected\n\n" ++ sent },
        s.log (replayed topic events.length ++ fault.toList.map (streamBroken id)))

/-- The answer about one template. -/
def templateResponse (s : Server) (name : String) : Response :=
  match s.catalog with
  | none => .error 404 "unknown template"
  | some catalog =>
    match catalog.get? name with
    | none => .error 404 (TemplateError.unknown name).message
    | some template =>
      match catalog.requires template with
      | .error e => .error 500 e.message
      | .ok needs => .json 200 (closedTemplateTree template needs)

/-- The answer about the latest compilation. -/
def latestResponse (s : Server) : Response :=
  match s.latest with
  | none => { status := 204 }
  | some c => .json 200 c.toTree

/-- Answers a request by what it asks for. -/
def route (s : Server) (id : String) (r : Request) : Response × Server :=
  match Route.of r.method r.path with
  | .subscribe topic => s.answerSubscribe id topic r.patience
  | .compile => s.answerCompile id r
  | .run => s.answerRun id r
  | .parse =>
    match withBody r readSource "request" with
    | .error refusal => (refusal, s)
    | .ok source => (.json 200 (signatureTree (Signature.ofSource source)), s)
  | .latest => (s.latestResponse, s)
  | .templates =>
    (.json 200 (.array ((s.catalog.map (·.templates)).getD [] |>.map Template.toTree)), s)
  | .template name => (s.templateResponse name, s)
  | .asset => (assetResponse r, s)

/-- The request does not come from another site. -/
def isSameSite (r : Request) : Bool :=
  let origin := r.header "Origin"
  origin.isEmpty || hostOf? origin == some r.host

/-- Answers a request that comes from the right site. -/
def guarded (s : Server) (id : String) (r : Request) : Response × Server :=
  if isSameSite r then s.route id r
  else
    let origin := r.header "Origin"
    (.error 403 ("cross-origin request from " ++ quoted origin), s.log [foreignRequest id origin])

/-- The id of a request: what the client sent, or a fresh one. -/
def requestId (s : Server) (r : Request) : String × Server :=
  let sent := r.header "X-Request-ID"
  if sent.isEmpty then
    let (id, ids) := s.ids.nextGrouped
    (id, { s with ids })
  else (sent, s)

/-- Answers a request. Only a request whose path is in its shortest form gets an id. -/
def respond (s : Server) (r : Request) : Response × Server :=
  match redirection? r with
  | some answer => (answer, s)
  | none =>
    let (id, s) := s.requestId r
    let (answer, s) := (s.log [requestStarted id r]).guarded id r
    (answer.withHeader "X-Request-Id" id, s.log [requestEnded id r answer])

/-- Ends all subscriptions. -/
def close (s : Server) : Server :=
  { s with broker := s.broker.close }

end Server

end FlowScript.Web
