import FlowScript.Proofs.Web.Latest
import FlowScript.Proofs.Web.Responses

/-!
# Refused requests

A server answers requests one after the other, at a time and with an interpreter that belong to the
request. A request that is answered with an error leaves nothing behind but a line in the journal. One
that is compiled adds one event under the topic of compilations, and scripts reach the interpreter only
for requests to run a flow that were declared as JSON and came from the right site.

## Main definitions

- `Memory` — what a server remembers, apart from ids and its journal
- `Exchange` — a request with its response and the memory on both sides of it
- `Ran` — a request for which a script may be run
- `Handled` — everything that answering one request can do

## Main results

- `handled_respond` — answering a request does nothing else
- `refusals_leave_no_trace` — the same for every sequence of requests
-/

namespace FlowScript.Web

open Broker (compilationTopic runTopic)

/-! ## Sequences of requests -/

/-- What a server remembers of requests, apart from the ids it has drawn and its journal. -/
structure Memory where
  latest : Option Compilation
  broker : Broker
  executed : List String
  files : Workspace

/-- What reaches a server: a request, at a time and with what the interpreter then does, or the end of
all subscriptions. -/
inductive Happening where
  | request (r : Request) (clock : Clock) (interpreter : Interpreter)
  | close

/-- A request that was answered. -/
structure Exchange where
  request : Request
  response : Response
  before : Memory
  after : Memory

namespace Server

/-- What the server remembers. -/
def memory (s : Server) : Memory :=
  ⟨s.latest, s.broker, s.executed, s.files⟩

/-- The server at a time, with what the interpreter then does. -/
def under (s : Server) (clock : Clock) (interpreter : Interpreter) : Server :=
  { s with clock, runner := s.runner.map (fun runner => { runner with interpreter }) }

/-- Answers a request: what was exchanged, and the server after it. -/
def exchange (s : Server) (r : Request) (clock : Clock) (interpreter : Interpreter) :
    Exchange × Server :=
  let answered := (s.under clock interpreter).respond r
  (⟨r, answered.1, s.memory, answered.2.memory⟩, answered.2)

/-- The requests among some happenings with their answers, and the server in the end. -/
def exchanges (s : Server) : List Happening → List Exchange × Server
  | [] => ([], s)
  | .request r clock interpreter :: rest =>
    let first := s.exchange r clock interpreter
    let later := first.2.exchanges rest
    (first.1 :: later.1, later.2)
  | .close :: rest => s.close.exchanges rest

end Server

/-- A compilation was told: the topic of compilations has got its event and nothing else, and it is the
latest one. -/
def Memory.Told (before after : Memory) : Prop :=
  ∃ c : Compilation, after.latest = some c ∧
    after.broker.topic compilationTopic =
      Broker.keep
        { before.broker.topic compilationTopic with
          version := (before.broker.topic compilationTopic).version + 1 }
        ⟨compilationTopic, "compiled", eventData c,
          (before.broker.topic compilationTopic).version + 1⟩

/-- A script may be run for a request: the request asks for it as JSON from the right site, it is
answered, and the answer holds the script. -/
structure Ran (r : Request) (a : Response) (script : String) : Prop where
  method : r.method = "POST"
  path : r.path = runPath
  declared : isJsonType (r.header "Content-Type") = true
  sameSite : r.header "Origin" = "" ∨ hostOf? (r.header "Origin") = some r.host
  status : a.status = 200
  script : a.text? "script" = some script

/-- Neither compiling nor running a flow is asked for. -/
def AsksElse (r : Request) : Prop :=
  r.path ≠ compilePath ∧ r.path ≠ runPath

/-- What answering a request does to the memory of a server. -/
inductive Handled (r : Request) (before : Memory) (a : Response) : Memory → Prop
  /-- Nothing is remembered; so it is with every refusal. -/
  | untouched (h : a.status = 200 → AsksElse r) : Handled r before a before
  /-- A subscriber has come and gone. -/
  | subscribed (broker : Broker) (hstatus : a.status = 200) (h : AsksElse r) :
      Handled r before a { before with broker }
  /-- A flow was compiled. -/
  | compiled {after : Memory} (hstatus : a.status = 200)
      (htold : before.broker.closed = false → before.Told after)
      (hexecuted : after.executed = before.executed) : Handled r before a after
  /-- A flow was compiled, and its script was handed to the interpreter. -/
  | ran {after : Memory} {script : String} (h : Ran r a script)
      (htold : before.broker.closed = false → before.Told after)
      (hexecuted : after.executed = before.executed ++ [script]) : Handled r before a after

/-! ## What handlers publish -/

/-- An event of a run is none of the topic of compilations. -/
theorem topic_act_run (b : Broker) (type : String) (data : Json.Tree) :
    (b.act (.publish runTopic type (some data))).topic compilationTopic =
      b.topic compilationTopic := by
  have hadded : b.added? compilationTopic (.publish runTopic type (some data)) = none :=
    if_neg (fun h => absurd h.2 (by decide))
  rw [Broker.act_topic, hadded]
  rfl

/-- A compilation that is published while the broker is open is told. -/
theorem told_act (before : Memory) (c : Compilation) (h : before.broker.closed = false) :
    before.Told { before with
      latest := some c
      broker := before.broker.act (.publish compilationTopic "compiled" (some c.toTree)) } := by
  refine ⟨c, rfl, ?_⟩
  have hadded : before.broker.added? compilationTopic
      (.publish compilationTopic "compiled" (some c.toTree)) =
        some ⟨compilationTopic, "compiled", eventData c,
          (before.broker.topic compilationTopic).version + 1⟩ := if_pos ⟨h, rfl⟩
  rw [Broker.act_topic, hadded]

namespace Memory

/-- What is told does not depend on files, on scripts that were run or on other topics. -/
theorem Told.of_topic {before after after' : Memory} (h : before.Told after)
    (hlatest : after'.latest = after.latest)
    (htopic : after'.broker.topic compilationTopic = after.broker.topic compilationTopic) :
    before.Told after' := by
  obtain ⟨c, hc, ht⟩ := h
  exact ⟨c, hlatest.trans hc, htopic.trans ht⟩

end Memory

namespace Server

/-- What is told of a flow. -/
def toldOf (s : Server) (f : Flow) : Compilation :=
  .ofCompiled "" f (f.compile s.clock).1 (f.compile s.clock).2

/-- Compiling publishes and remembers one compilation. -/
theorem compile_eq (s : Server) (id : String) (f : Flow) :
    ∃ journal, s.compile id f = ((f.compile s.clock).1,
      { s with
        latest := some (s.toldOf f)
        broker := s.broker.act
          (.publish compilationTopic "compiled" (some (s.toldOf f).toTree))
        journal }) := by
  have hserver := publish_eq
    { s.log (compileRecords id f (f.compile s.clock).1 (f.compile s.clock).2) with
      latest := some (s.toldOf f) }
    compilationTopic "compiled" (s.toldOf f).toTree
  unfold compile publishCompilation
  simp only [if_pos]
  -- a closed broker only adds a line to the journal
  split
  case h_1 after hpublish =>
    obtain rfl := (congrArg Prod.snd hpublish).symm.trans hserver
    exact ⟨_, rfl⟩
  case h_2 after hpublish =>
    obtain rfl := (congrArg Prod.snd hpublish).symm.trans hserver
    exact ⟨_, rfl⟩

theorem tell_eq (s : Server) (n : Notice) :
    (s.tell n).2 = { s with broker := s.broker.act (.publish n.topic n.type (some n.data)) } :=
  s.publish_eq n.topic n.type n.data

/-! ## What handlers do -/

/-- A refusal or a redirection is remembered nowhere. -/
theorem handled_of_status {r : Request} {before : Memory} {a : Response} (h : a.status ≠ 200) :
    Handled r before a before :=
  .untouched (fun hstatus => absurd hstatus h)

theorem handled_answerCompile (s : Server) (id : String) (r : Request) :
    Handled r s.memory (s.answerCompile id r).1 (s.answerCompile id r).2.memory := by
  unfold answerCompile
  cases hbody : withBody r Flow.ofWritten "flow" with
  | error refusal =>
    have hstatus := status_of_withBody hbody
    exact handled_of_status (show refusal.status ≠ 200 by omega)
  | ok f =>
    obtain ⟨journal, hcompile⟩ := s.compile_eq id f
    simp only [hcompile]
    exact .compiled rfl (told_act s.memory (s.toldOf f)) rfl

/-- The answer about a compiled flow holds its script. -/
theorem text?_compiledMembers (r : Compiled) (f : Flow) {more : List (String × Json.Tree)}
    (h : ∀ m ∈ more, m.2.Fits Json.maxDepth 1) :
    (Response.json 200 (.record (compiledMembers r f ++ more))).text? "script" = some r.script := by
  refine Response.text?_json 200 (Json.fits_record (by decide) ?_) rfl
  intro m hm
  rcases List.mem_append.mp hm with hm | hm
  · simp only [compiledMembers, List.mem_cons, List.not_mem_nil, or_false] at hm
    rcases hm with rfl | rfl | rfl | rfl | rfl | rfl | rfl
    · exact Json.fits_text _ (by decide)
    · exact Json.fits_texts _ (by decide)
    · exact Json.fits_texts _ (by decide)
    · exact Json.fits_map _ (by decide) (fun d => d.fits_toTree (by decide))
    · exact Json.fits_texts _ (by decide)
    · exact Json.fits_map _ (by decide) (fun i => i.fits_toTree (by decide))
    · exact Json.fits_text _ (by decide)
  · exact h m hm

/-- A request to run a flow that was compiled, whether its script reached the interpreter or not. -/
theorem handled_of_ran {r : Request} {before after : Memory} {a : Response} {script : String}
    (executed : Bool) (h : Ran r a script) (htold : before.broker.closed = false → before.Told after)
    (hexecuted : after.executed = before.executed ++ if executed then [script] else []) :
    Handled r before a after := by
  cases executed with
  | false => exact .compiled h.status htold (by simpa using hexecuted)
  | true => exact .ran h htold hexecuted

theorem origin_of_isSameSite {r : Request} (h : isSameSite r = true) :
    r.header "Origin" = "" ∨ hostOf? (r.header "Origin") = some r.host := by
  simpa [isSameSite] using h

theorem handled_answerRun (s : Server) (id : String) {r : Request} (hmethod : r.method = "POST")
    (hpath : r.path = runPath) (hsite : isSameSite r = true) :
    Handled r s.memory (s.answerRun id r).1 (s.answerRun id r).2.memory := by
  unfold answerRun
  cases hrunner : s.runner with
  | none => exact handled_of_status (show 501 ≠ 200 by decide)
  | some runner =>
    cases hbody : withBody r Flow.ofWritten "flow" with
    | error refusal =>
      have hstatus := status_of_withBody hbody
      exact handled_of_status (show refusal.status ≠ 200 by omega)
    | ok f =>
      obtain ⟨journal, hcompile⟩ := s.compile_eq id f
      simp only [hcompile, tell_eq, List.append_assoc]
      generalize runner.attempt (f.compile s.clock).1.script _ _ = attempt
      refine handled_of_ran attempt.executed
        ⟨hmethod, hpath, isJsonType_of_withBody hbody, origin_of_isSameSite hsite, rfl,
          text?_compiledMembers _ f ?_⟩
        (fun hopen => (told_act s.memory (s.toldOf f) hopen).of_topic ?_ ?_) ?_
      · intro m hm
        rcases List.mem_append.mp hm with hm | hm
        · split at hm
          case h_1 => cases hm
          case h_2 run _ =>
            obtain rfl := List.mem_singleton.mp hm
            exact run.fits_toTree (by decide)
        · exact Json.fits_textUnlessEmpty _ _ (by decide) m hm
      · split <;> rfl
      · -- what is told of the run belongs to another topic
        split
        case h_1 => exact (topic_act_run _ _ _).trans (topic_act_run _ _ _)
        case h_2 => exact (topic_act_run _ _ _).trans (topic_act_run _ _ _)
        case h_3 => exact topic_act_run _ _ _
      · split <;> rfl

theorem handled_answerSubscribe (s : Server) (id topic : String) (patience : Nat) {r : Request}
    (h : AsksElse r) :
    Handled r s.memory (s.answerSubscribe id topic patience).1
      (s.answerSubscribe id topic patience).2.memory := by
  unfold answerSubscribe
  split
  · exact .untouched (fun _ => h)
  · cases s.broker.subscribe? topic with
    | none => exact .untouched (fun _ => h)
    | some subscribed => exact .subscribed _ rfl h

/-- Answering a request from the right site does one of these things. -/
theorem handled_route (s : Server) (id : String) {r : Request} (hsite : isSameSite r = true) :
    Handled r s.memory (s.route id r).1 (s.route id r).2.memory := by
  by_cases hpath : r.path = compilePath ∨ r.path = runPath
  · rcases Route.of_path r.method hpath with hroute | hroute | hroute
    · simpa only [route, hroute] using s.handled_answerCompile id r
    · obtain ⟨hmethod, hrun⟩ := Route.of_eq_run hroute
      simpa only [route, hroute] using s.handled_answerRun id hmethod hrun hsite
    · simp only [route, hroute, assetResponse_of_path hpath]
      exact handled_of_status (show 404 ≠ 200 by decide)
  · have helse : AsksElse r := not_or.mp hpath
    unfold route
    split
    case h_1 topic _ => exact s.handled_answerSubscribe id topic r.patience helse
    case h_2 => exact s.handled_answerCompile id r
    case h_3 hroute => exact absurd (Or.inr (Route.of_eq_run hroute).2) hpath
    case h_4 => split <;> exact .untouched (fun _ => helse)
    all_goals exact .untouched (fun _ => helse)

theorem handled_guarded (s : Server) (id : String) (r : Request) :
    Handled r s.memory (s.guarded id r).1 (s.guarded id r).2.memory := by
  unfold guarded
  split
  case isTrue hsite => exact s.handled_route id hsite
  case isFalse => exact handled_of_status (show 403 ≠ 200 by decide)

end Server

/-- A header makes no difference. -/
theorem Handled.withHeader {r : Request} {before after : Memory} {a : Response}
    (h : Handled r before a after) (name value : String) :
    Handled r before (a.withHeader name value) after := by
  cases h with
  | untouched h => exact .untouched h
  | subscribed broker hstatus h => exact .subscribed broker hstatus h
  | compiled hstatus htold hexecuted => exact .compiled hstatus htold hexecuted
  | ran h htold hexecuted =>
    exact .ran ⟨h.method, h.path, h.declared, h.sameSite, h.status, h.script⟩ htold hexecuted

namespace Server

/-- Answering a request does one of these things and nothing else. -/
theorem handled_respond (s : Server) (r : Request) :
    Handled r s.memory (s.respond r).1 (s.respond r).2.memory := by
  unfold respond
  cases hmoved : redirection? r with
  | some answer =>
    obtain ⟨location, rfl⟩ : ∃ location, answer = .moved location := by
      simp only [redirection?] at hmoved
      split at hmoved
      · cases hmoved
      · exact ⟨_, (Option.some.inj hmoved).symm⟩
    exact handled_of_status (show 301 ≠ 200 by decide)
  | none =>
    have hid : (s.requestId r).2.memory = s.memory := by
      unfold requestId
      dsimp only
      split <;> rfl
    have h := handled_guarded ((s.requestId r).2.log [requestStarted (s.requestId r).1 r])
      (s.requestId r).1 r
    rw [show ((s.requestId r).2.log _).memory = s.memory from hid] at h
    exact h.withHeader _ _

end Server

/-! ## What happened -/

namespace Exchange

/-- The exchange is what answering its request can do. -/
def Fair (e : Exchange) : Prop :=
  Handled e.request e.before e.response e.after

/-- A refusal is remembered nowhere. -/
theorem Fair.after_eq {e : Exchange} (h : e.Fair) (hstatus : 400 ≤ e.response.status) :
    e.after = e.before := by
  have hne : e.response.status ≠ 200 := by omega
  unfold Fair at h
  generalize e.after = after at h ⊢
  cases h with
  | untouched => rfl
  | subscribed broker h => exact absurd h hne
  | compiled h => exact absurd h hne
  | ran h => exact absurd h.status hne

/-- A flow that is compiled while the broker is open is told. -/
theorem Fair.told {e : Exchange} (h : e.Fair) (hopen : e.before.broker.closed = false)
    (hpath : e.request.path = compilePath ∨ e.request.path = runPath)
    (hstatus : e.response.status = 200) : e.before.Told e.after := by
  unfold Fair at h
  generalize e.after = after at h ⊢
  cases h with
  | untouched h => exact absurd hpath (not_or.mpr (h hstatus))
  | subscribed broker _ h => exact absurd hpath (not_or.mpr h)
  | compiled _ htold => exact htold hopen
  | ran _ htold => exact htold hopen

/-- One request has at most its own script run. -/
theorem Fair.executed {e : Exchange} (h : e.Fair) :
    e.after.executed = e.before.executed ∨
      ∃ script, Ran e.request e.response script ∧
        e.after.executed = e.before.executed ++ [script] := by
  unfold Fair at h
  generalize e.after = after at h ⊢
  cases h with
  | untouched => exact .inl rfl
  | subscribed => exact .inl rfl
  | compiled _ _ hexecuted => exact .inl hexecuted
  | ran h _ hexecuted => exact .inr ⟨_, h, hexecuted⟩

end Exchange

namespace Server

variable (s : Server) (r : Request) (clock : Clock) (interpreter : Interpreter)

theorem exchanges_request (rest : List Happening) :
    s.exchanges (.request r clock interpreter :: rest) =
      ((s.exchange r clock interpreter).1 ::
          ((s.exchange r clock interpreter).2.exchanges rest).1,
        ((s.exchange r clock interpreter).2.exchanges rest).2) :=
  rfl

theorem exchanges_close (rest : List Happening) :
    s.exchanges (.close :: rest) = s.close.exchanges rest :=
  rfl

theorem memory_executed : s.memory.executed = s.executed :=
  rfl

theorem memory_under : (s.under clock interpreter).memory = s.memory :=
  rfl

theorem fair_exchange : (s.exchange r clock interpreter).1.Fair := by
  have h := (s.under clock interpreter).handled_respond r
  rw [memory_under] at h
  simpa only [Exchange.Fair, exchange] using h

/-- An exchange begins with what the server remembers and ends with what it remembers then. -/
theorem executed_exchange :
    (s.exchange r clock interpreter).1.before.executed = s.executed ∧
      (s.exchange r clock interpreter).1.after.executed =
        (s.exchange r clock interpreter).2.executed := by
  simp only [exchange, memory_executed, and_self]

variable {s}

theorem fair_of_mem_exchanges {happenings : List Happening} {e : Exchange}
    (h : e ∈ (s.exchanges happenings).1) : e.Fair := by
  induction happenings generalizing s with
  | nil => cases h
  | cons first rest ih =>
    cases first with
    | request r clock interpreter =>
      rw [exchanges_request] at h
      rcases List.mem_cons.mp h with rfl | h
      · exact s.fair_exchange r clock interpreter
      · exact ih h
    | close =>
      rw [exchanges_close] at h
      exact ih h

variable (s)

/-- The scripts that reached the interpreter, each for a request of its own. -/
theorem executed_exchanges (happenings : List Happening) :
    ∃ (runs : List Exchange) (scripts : List String),
      runs.Sublist (s.exchanges happenings).1 ∧
        List.Forall₂ (fun e script => Ran e.request e.response script) runs scripts ∧
        (s.exchanges happenings).2.executed = s.executed ++ scripts := by
  induction happenings generalizing s with
  | nil => exact ⟨[], [], .slnil, .nil, (List.append_nil s.executed).symm⟩
  | cons first rest ih =>
    cases first with
    | request r clock interpreter =>
      have hfair := s.fair_exchange r clock interpreter
      have hexecuted := s.executed_exchange r clock interpreter
      rw [exchanges_request]
      generalize s.exchange r clock interpreter = answered at hfair hexecuted ⊢
      obtain ⟨hbefore, hafter⟩ := hexecuted
      obtain ⟨runs, scripts, hruns, hran, hlast⟩ := ih answered.2
      rw [← hafter] at hlast
      rcases hfair.executed with hsame | ⟨script, hscript, hmore⟩
      · rw [hsame, hbefore] at hlast
        exact ⟨runs, scripts, hruns.cons _, hran, hlast⟩
      · rw [hmore, hbefore, List.append_assoc, List.singleton_append] at hlast
        exact ⟨answered.1 :: runs, script :: scripts, hruns.cons_cons _, .cons hscript hran, hlast⟩
    | close => exact ih s.close

/-- Whatever reaches a server: a request that is answered with an error is remembered nowhere; one to
compile or to run a flow that is answered while the broker is open has one event told; and the scripts
that reach the interpreter belong to requests for which they may be run, each to another one. -/
theorem refusals_leave_no_trace (happenings : List Happening) :
    (∀ e ∈ (s.exchanges happenings).1, 400 ≤ e.response.status → e.after = e.before) ∧
      (∀ e ∈ (s.exchanges happenings).1, e.before.broker.closed = false →
        e.request.path = compilePath ∨ e.request.path = runPath →
        e.response.status = 200 → e.before.Told e.after) ∧
      ∃ (runs : List Exchange) (scripts : List String),
        runs.Sublist (s.exchanges happenings).1 ∧
          List.Forall₂ (fun e script => Ran e.request e.response script) runs scripts ∧
          (s.exchanges happenings).2.executed = s.executed ++ scripts :=
  ⟨fun _ he => (fair_of_mem_exchanges he).after_eq, fun _ he => (fair_of_mem_exchanges he).told,
    s.executed_exchanges happenings⟩

/-- A request to run a flow that is not declared as JSON, and the same as JSON. -/
def runRequests : List Happening :=
  let r : Request := { method := "POST", target := runPath, body := "\x7b\x7d" }
  let interpreter : Interpreter := { execute := fun _ => {}, install := fun _ => none }
  [.request r (.ok { seconds := 0 }) interpreter,
    .request { r with headers := [("Content-Type", "application/json")] } (.ok { seconds := 0 })
      interpreter]

/-- A server that has just started and runs scripts. -/
def runningServer : Server :=
  { Calls.freshServer with
    runner := some { interpreter := { execute := fun _ => {}, install := fun _ => none } } }

/-- The first of the two is refused and remembered nowhere, the second one is told. -/
theorem undeclared_run_leaves_no_trace :
    (runningServer.exchanges runRequests).1.map (fun e => e.response.status) = [415, 200] ∧
      ∀ e ∈ (runningServer.exchanges runRequests).1,
        (e.response.status = 415 → e.after = e.before) ∧
          (e.response.status = 200 → e.before.Told e.after) := by
  have hopen : ∀ e ∈ (runningServer.exchanges runRequests).1,
      e.before.broker.closed = false ∧ e.request.path = runPath := by
    decide +kernel
  obtain ⟨hrefused, htold, -⟩ := refusals_leave_no_trace runningServer runRequests
  refine ⟨by decide +kernel, fun e he => ⟨fun h => hrefused e he (by omega), fun h => ?_⟩⟩
  exact htold e he (hopen e he).1 (.inr (hopen e he).2) h

end Server

end FlowScript.Web
