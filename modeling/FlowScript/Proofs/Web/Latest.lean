import FlowScript.Proofs.Publish.Delivery
import FlowScript.Web.Server

/-!
# The latest compilation

A server remembers the latest compilation for clients that poll, and its broker keeps the last event
for new subscribers. Telling of a compilation does the one and then the other, and other calls may come
in between. Both are right about the call they have seen last, which need not be the same one: they
agree if calls finish in the order in which they start and the broker is not closed.
-/

namespace FlowScript.Web

open Broker (compilationTopic)

/-- The data of the event of a compilation. -/
def eventData (c : Compilation) : List Char :=
  c.toTree.compact .escaped

/-- What is told of a compilation. -/
structure Call where
  type : String
  compilation : Compilation

namespace Server

/-- Remembers the compilation of a call: the first half of the call. -/
def remember (s : Server) (call : Call) : Server :=
  { s with latest := some call.compilation }

/-- Publishes the event of a call: the second half of the call. -/
def append (s : Server) (call : Call) : Server :=
  (s.publish compilationTopic call.type call.compilation.toTree).2

/-- Publishing asks the broker for one thing and changes nothing else. -/
theorem publish_eq (s : Server) (topic type : String) (data : Json.Tree) :
    (s.publish topic type data).2 =
      { s with broker := s.broker.act (.publish topic type (some data)) } := by
  unfold publish
  cases h : s.broker.publish? topic type data <;> simp [Broker.act, h]

/-- A call is its first half, followed by its second half. -/
example (s : Server) (call : Call) :
    (s.publishCompilation compilationTopic call.type call.compilation).2 =
      (s.remember call).append call := rfl

end Server

/-! ## Calls that overlap -/

/-- One half of a call, or the end of the broker. -/
inductive HalfStep where
  /-- A call starts and remembers its compilation. -/
  | start (call : Call)
  /-- The call at a place among those underway publishes its event and is over. -/
  | finish (place : Nat)
  | close

/-- A server with the calls that are underway, in the order in which they started. -/
structure Calls where
  server : Server
  underway : List Call := []

namespace Calls

/-- What one half-step does. -/
def step (s : Calls) : HalfStep → Calls
  | .start call => { server := s.server.remember call, underway := s.underway ++ [call] }
  | .finish place =>
    { server := ((s.underway[place]?).map s.server.append).getD s.server
      underway := s.underway.eraseIdx place }
  | .close => { s with server := s.server.close }

/-- A server that has not been told anything, after some half-steps. -/
def run (s : Server) (steps : List HalfStep) : Calls :=
  steps.foldl step { server := { s with broker := .forFlows, latest := none } }

end Calls

namespace Server

/-- The latest compilation is what came with the last event that is kept for new subscribers. -/
def Agrees (s : Server) : Prop :=
  s.latest.map eventData =
    ((s.broker.topic compilationTopic).kept.getLast?).map Event.data

end Server

/-! ## What the half-steps say -/

namespace HalfStep

/-- The call that starts. -/
def started? : HalfStep → Option Call
  | start call => some call
  | _ => none

/-- The half-step closes the broker. -/
def isClose : HalfStep → Bool
  | close => true
  | _ => false

/-- No call overtakes another, and the broker stays open. -/
def InOrder : HalfStep → Prop
  | start _ => True
  | finish place => place = 0
  | close => False

end HalfStep

/-- The calls that finish, given those that are underway. -/
def finished : List Call → List HalfStep → List Call
  | _, [] => []
  | underway, .start call :: rest => finished (underway ++ [call]) rest
  | underway, .finish place :: rest =>
    (underway[place]?).toList ++ finished (underway.eraseIdx place) rest
  | underway, .close :: rest => finished underway rest

/-- What is asked of the broker by half-steps, given the calls that are underway. -/
def requests : List Call → List HalfStep → List Broker.Request
  | _, [] => []
  | underway, .start call :: rest => requests (underway ++ [call]) rest
  | underway, .finish place :: rest =>
    ((underway[place]?).map (fun call =>
      .publish compilationTopic call.type (some call.compilation.toTree))).toList
      ++ requests (underway.eraseIdx place) rest
  | underway, .close :: rest => .close :: requests underway rest

/-- The calls that finish while the broker is open. -/
def published (steps : List HalfStep) : List Call :=
  finished [] (steps.takeWhile (fun h => !h.isClose))

/-- The compilation of the call that started last. -/
def lastStarted? (steps : List HalfStep) : Option Compilation :=
  (steps.filterMap HalfStep.started?).getLast?.map Call.compilation

namespace Calls

/-! ## What is remembered -/

theorem append_latest (s : Server) (call : Call) : (s.append call).latest = s.latest := by
  rw [Server.append, Server.publish_eq]

/-- The server remembers the call that started last. -/
theorem latest_run (s : Server) (steps : List HalfStep) :
    (run s steps).server.latest = lastStarted? steps := by
  induction steps using List.reverseRecOn with
  | nil => rfl
  | append_singleton steps h ih =>
    rw [run, List.foldl_append]
    show (step (run s steps) h).server.latest = _
    cases h with
    | start call => simp [step, Server.remember, lastStarted?, HalfStep.started?]
    | finish place =>
      have hlast : lastStarted? (steps ++ [.finish place]) = lastStarted? steps := by
        simp [lastStarted?, HalfStep.started?]
      rw [hlast, ← ih]
      cases hcall : (run s steps).underway[place]? with
      | none => simp [step, hcall]
      | some call => simp [step, hcall, append_latest]
    | close =>
      have hlast : lastStarted? (steps ++ [.close]) = lastStarted? steps := by
        simp [lastStarted?, HalfStep.started?]
      rw [hlast, ← ih]
      rfl

/-! ## What is kept -/

theorem append_broker (s : Server) (call : Call) :
    (s.append call).broker = s.broker.act
      (.publish compilationTopic call.type (some call.compilation.toTree)) := by
  rw [Server.append, Server.publish_eq]

/-- The broker does what half-steps ask of it. -/
theorem foldl_step_broker (s : Calls) (steps : List HalfStep) :
    (steps.foldl step s).server.broker =
      (requests s.underway steps).foldl Broker.act s.server.broker := by
  induction steps generalizing s with
  | nil => rfl
  | cons h rest ih =>
    rw [List.foldl_cons, ih]
    cases h with
    | start call => rfl
    | finish place =>
      simp only [step, requests, List.foldl_append]
      cases hcall : s.underway[place]? with
      | none => rfl
      | some call => simp [append_broker]
    | close => rfl

/-- How the broker of a new server was set up. -/
def setup : List Broker.Request :=
  [.configure compilationTopic { size := 1 }, .configure Broker.runTopic { size := 1 }]

theorem broker_run (s : Server) (steps : List HalfStep) :
    (run s steps).server.broker = Broker.after (setup ++ requests [] steps) := by
  rw [run, foldl_step_broker, Broker.after, List.foldl_append]
  rfl

theorem retention?_of_mem_requests (underway : List Call) (steps : List HalfStep)
    (r : Broker.Request) (hr : r ∈ requests underway steps) :
    r.retention? compilationTopic = none := by
  induction steps generalizing underway with
  | nil => cases hr
  | cons h rest ih =>
    cases h with
    | start call => exact ih _ hr
    | finish place =>
      rcases List.mem_append.mp hr with hr | hr
      · obtain ⟨call, -, rfl⟩ := Option.map_eq_some_iff.mp (Option.mem_toList.mp hr)
        rfl
      · exact ih _ hr
    | close =>
      rcases List.mem_cons.mp hr with rfl | hr
      · rfl
      · exact ih _ hr

/-- The last event is kept whatever the half-steps are. -/
theorem configured_setup (steps : List HalfStep) :
    Broker.configured compilationTopic (setup ++ requests [] steps) = { size := 1 } := by
  have hnone : (requests [] steps).filterMap (Broker.Request.retention? compilationTopic) = [] :=
    List.filterMap_eq_nil_iff.mpr (retention?_of_mem_requests [] steps)
  rw [Broker.configured, List.filterMap_append, hnone]
  rfl

theorem retention_run (s : Server) (steps : List HalfStep) :
    ((run s steps).server.broker.topic compilationTopic).retention = { size := 1 } := by
  rw [broker_run, Broker.retention_after, configured_setup]

theorem rtake_one {α : Type} (l : List α) : l.rtake 1 = l.getLast?.toList := by
  induction l using List.reverseRecOn with
  | nil => rfl
  | append_singleton l x _ => simp [List.rtake_concat_succ]

/-- What half-steps ask the broker to publish before it is closed are the calls that finish. -/
theorem content_requests (underway : List Call) (steps : List HalfStep) :
    ((requests underway steps).takeWhile (fun r => !r.isClose)).filterMap
        (Broker.Request.content? compilationTopic) =
      (finished underway (steps.takeWhile (fun h => !h.isClose))).map
        (fun call => (call.type, call.compilation.toTree)) := by
  induction steps generalizing underway with
  | nil => rfl
  | cons h rest ih =>
    cases h with
    | start call => exact ih _
    | finish place =>
      cases hcall : underway[place]? with
      | none =>
        simpa [requests, finished, hcall, HalfStep.isClose] using ih (underway.eraseIdx place)
      | some call =>
        simpa [requests, finished, hcall, HalfStep.isClose, Broker.Request.isClose,
          Broker.Request.content?] using ih (underway.eraseIdx place)
    | close => rfl

/-- The broker keeps the event of the call that finished last while the broker was open. -/
theorem kept_run (s : Server) (steps : List HalfStep) :
    ((run s steps).server.broker.topic compilationTopic).kept =
      ((published steps).getLast?.map (fun call =>
        (⟨compilationTopic, call.type, eventData call.compilation, (published steps).length⟩ :
          Event))).toList := by
  have hfirst : Broker.ConfiguredFirst compilationTopic (setup ++ requests [] steps) :=
    ⟨setup, requests [] steps, rfl, rfl, retention?_of_mem_requests [] steps⟩
  have hevents : Broker.published compilationTopic (setup ++ requests [] steps) =
      ((published steps).map (fun call => (call.type, call.compilation.toTree))).mapIdx
        (fun i c => ⟨compilationTopic, c.1, c.2.compact .escaped, i + 1⟩) := by
    rw [published, ← content_requests]
    rfl
  rw [broker_run, Broker.kept_of_configuredFirst _ _ hfirst, configured_setup, hevents]
  show List.rtake _ 1 = _
  rw [rtake_one, List.getLast?_mapIdx, List.getLast?_map]
  cases hlast : (published steps).getLast? with
  | none => rfl
  | some call =>
    have hpos : 0 < (published steps).length :=
      List.length_pos_of_mem (List.mem_of_getLast? hlast)
    have hlength : (((published steps).length - 1 : Nat) : Int) + 1 = (published steps).length := by
      omega
    simp [hlength, eventData]

/-! ## Calls in order -/

/-- If no call overtakes another, the calls finish in the order in which they start. -/
theorem finished_append_underway (s : Calls) (steps : List HalfStep)
    (h : ∀ h ∈ steps, h.InOrder) :
    finished s.underway steps ++ (steps.foldl step s).underway =
      s.underway ++ steps.filterMap HalfStep.started? := by
  induction steps generalizing s with
  | nil => simp [finished]
  | cons first rest ih =>
    have hrest : ∀ h ∈ rest, h.InOrder := fun h' hh => h h' (List.mem_cons_of_mem _ hh)
    have hfirst : first.InOrder := h first List.mem_cons_self
    have ih := ih (s.step first) hrest
    cases first with
    | start call => simpa [finished, step, HalfStep.started?] using ih
    | finish place =>
      obtain rfl : place = 0 := hfirst
      cases hunderway : s.underway with
      | nil => simpa [finished, step, HalfStep.started?, hunderway, List.filterMap_cons] using ih
      | cons call others =>
        simpa [finished, step, HalfStep.started?, hunderway, List.filterMap_cons] using ih
    | close => exact hfirst.elim

theorem published_of_inOrder (steps : List HalfStep) (h : ∀ h ∈ steps, h.InOrder) :
    published steps = finished [] steps := by
  have hopen : steps.takeWhile (fun h => !h.isClose) = steps := by
    apply List.takeWhile_eq_self_iff.mpr
    intro first hfirst
    cases first with
    | close => exact (h _ hfirst).elim
    | _ => rfl
  rw [published, hopen]

/-- What is served to clients that poll is the compilation of the call that started last, what new
subscribers get is that of the call that finished last while the broker was open. Once all calls that
were started are over, they are the same if no call overtook another and the broker is open. -/
theorem latest_and_last_event (s : Server) (steps : List HalfStep) :
    (run s steps).server.latestResponse =
      (match lastStarted? steps with
        | none => { status := 204 }
        | some c => .json 200 c.toTree) ∧
    Broker.replay ((run s steps).server.broker.topic compilationTopic) =
      ((published steps).getLast?.map (fun call =>
        (⟨compilationTopic, call.type, eventData call.compilation, (published steps).length⟩ :
          Event))).toList ∧
    ((run s steps).server.Agrees ↔
      (lastStarted? steps).map eventData =
        (published steps).getLast?.map (fun call => eventData call.compilation)) ∧
    ((∀ h ∈ steps, h.InOrder) → (run s steps).underway = [] → (run s steps).server.Agrees) := by
  have hagrees : (run s steps).server.Agrees ↔
      (lastStarted? steps).map eventData =
        (published steps).getLast?.map (fun call => eventData call.compilation) := by
    rw [Server.Agrees, latest_run, kept_run]
    cases (published steps).getLast? <;> simp
  refine ⟨?_, ?_, hagrees, ?_⟩
  · cases hlast : lastStarted? steps <;> simp [Server.latestResponse, latest_run, hlast]
  · rw [Broker.replay, retention_run, kept_run]
    cases (published steps).getLast? <;> rfl
  · intro horder hover
    have hcalls := finished_append_underway
      { server := { s with broker := .forFlows, latest := none } } steps horder
    rw [show (steps.foldl step _).underway = [] from hover, List.append_nil, List.nil_append]
      at hcalls
    rw [hagrees, published_of_inOrder steps horder, hcalls, lastStarted?, Option.map_map]
    rfl

/-- A server that has just started. -/
def freshServer : Server := { clock := .ok { seconds := 0 }, ids := { bytes := fun _ => [] } }

/-- Two calls, of which the second one overtakes the first. -/
def crossedSteps : List HalfStep :=
  [.start ⟨"compiled", { flowId := "one" }⟩, .start ⟨"compiled", { flowId := "two" }⟩,
    .finish 1, .finish 0]

/-- Two calls, one after the other, with the end of the broker in between. -/
def closedSteps : List HalfStep :=
  [.start ⟨"compiled", { flowId := "one" }⟩, .finish 0, .close,
    .start ⟨"compiled", { flowId := "two" }⟩, .finish 0]

/-- On a server that has just started the steps end with no call underway; clients that poll then get
the second compilation, and the last event is the first one. -/
structure LeavesFirstEvent (steps : List HalfStep) : Prop where
  underway : (run freshServer steps).underway = []
  latest : (run freshServer steps).server.latestResponse =
    .json 200 ({ flowId := "two" } : Compilation).toTree
  kept : ((run freshServer steps).server.broker.topic compilationTopic).kept.map Event.data =
    [eventData { flowId := "one" }]
  disagrees : ¬ (run freshServer steps).server.Agrees

/-- Calls that cross leave the two apart, and so does a call that comes when the broker is closed. -/
theorem crossed_calls_disagree : LeavesFirstEvent crossedSteps ∧ LeavesFirstEvent closedSteps := by
  have hdiffer : eventData { flowId := "two" } ≠ eventData { flowId := "one" } := by decide
  exact ⟨⟨rfl, rfl, rfl, fun h => hdiffer (Option.some.inj h)⟩,
    ⟨rfl, rfl, rfl, fun h => hdiffer (Option.some.inj h)⟩⟩

end Calls

end FlowScript.Web
