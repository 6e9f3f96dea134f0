import FlowScript.Json.Value

/-!
# Broker of events

Events are published under topics. Each subscriber has a queue of limited length; an event that finds
it full is dropped for that subscriber. A topic may keep its latest events for subscribers that come
later.
-/

namespace FlowScript

/-- An event of a topic. The versions of published events count the events of the topic from one. -/
structure Event where
  topic : String
  type : String
  /-- The data as a JSON text. -/
  data : List Char
  version : Int

/-- The JSON form of an event. Its data has to be a document. -/
def Event.toTree (e : Event) : Except Json.Fault Json.Tree := do
  return .record [("topic", .text e.topic), ("type", .text e.type),
    ("data", ← Json.parse e.data), ("version", .int e.version)]

/-- An event on the wire of an event stream. -/
def Event.wire (e : Event) : Except Json.Fault String := do
  return "data: " ++ String.ofList ((← e.toTree).compact .escaped) ++ "\n\n"

/-- The text of an event stream. It stops in front of the first event that cannot be written, and then
tells why. -/
def Event.stream : List Event → String × Option Json.Fault
  | [] => ("", none)
  | e :: rest =>
    match e.wire with
    | .error fault => ("", some fault)
    | .ok text =>
      let (more, fault) := stream rest
      (text ++ more, fault)

/-- How a topic keeps events. -/
structure Retention where
  /-- The number of events that are kept. -/
  size : Int := 0
  /-- New subscribers get all kept events instead of the last one. -/
  replaysAll : Bool := false

/-- A topic with what it has seen. -/
structure Topic where
  name : String
  retention : Retention := {}
  /-- The number of events so far. -/
  version : Nat := 0
  /-- The kept events, oldest first. -/
  kept : List Event := []

/-- What a subscriber sees. -/
structure Subscription where
  topic : String
  /-- Events that were not taken yet, oldest first. -/
  queue : List Event := []
  /-- The subscription gets new events. -/
  attached : Bool := true
  /-- No event will ever follow. -/
  ended : Bool := false

/-- A broker with its subscriptions, which are known by their place. -/
structure Broker where
  topics : List Topic := []
  subscriptions : List Subscription := []
  closed : Bool := false

/-- The wording for the use of a closed broker. -/
def closedMessage : String := "publisher is closed"

namespace Subscription

/-- The length of a queue. -/
def capacity : Nat := 100

/-- Queues an event if there is room. -/
def offer (s : Subscription) (e : Event) : Subscription :=
  if s.queue.length < capacity then { s with queue := s.queue ++ [e] } else s

end Subscription

namespace Broker

/-- The topic with a name, a fresh one if it was not used yet. -/
def topic (b : Broker) (name : String) : Topic :=
  (b.topics.find? (fun t => t.name == name)).getD { name }

/-- Puts a topic in the place of the one with the same name. -/
def setTopic (b : Broker) (t : Topic) : Broker :=
  if b.topics.any (fun u => u.name == t.name) then
    { b with topics := b.topics.map (fun u => if u.name == t.name then t else u) }
  else { b with topics := b.topics ++ [t] }

/-- Decides how a topic keeps events from now on. -/
def configure (b : Broker) (name : String) (retention : Retention) : Broker :=
  b.setTopic { b.topic name with retention }

/-- The topic of compilations. -/
def compilationTopic : String := "compilation"

/-- The topic of runs. -/
def runTopic : String := "run"

/-- A broker that keeps the latest compilation and the latest run. -/
def forFlows : Broker :=
  (({} : Broker).configure compilationTopic { size := 1 }).configure runTopic { size := 1 }

/-- The events that a new subscriber of a topic gets at once. -/
def replay (t : Topic) : List Event :=
  if t.retention.replaysAll then t.kept else t.kept.drop (t.kept.length - 1)

/-- Adds a subscription and gives its place; none when the broker is closed. -/
def subscribe? (b : Broker) (name : String) : Option (Nat × Broker) :=
  if b.closed then none
  else
    let s := (replay (b.topic name)).foldl Subscription.offer { topic := name }
    some (b.subscriptions.length, { b with subscriptions := b.subscriptions ++ [s] })

/-- Keeps an event as the retention of its topic says. -/
def keep (t : Topic) (e : Event) : Topic :=
  if t.retention.size ≤ 0 then t
  else
    let kept := t.kept ++ [e]
    { t with kept := kept.drop (kept.length - t.retention.size.toNat) }

/-- Publishes an event with a document as its data; none when the broker is closed. -/
def publish? (b : Broker) (name type : String) (data : Json.Tree) : Option Broker :=
  if b.closed then none
  else
    let t := b.topic name
    let e : Event := ⟨name, type, data.compact .escaped, t.version + 1⟩
    let b := b.setTopic (keep { t with version := t.version + 1 } e)
    some {
      b with
      subscriptions := b.subscriptions.map (fun s =>
        if s.attached && s.topic == name then s.offer e else s) }

/-- Changes the subscription at a place. -/
def update (b : Broker) (place : Nat) (change : Subscription → Subscription) : Broker :=
  { b with subscriptions := b.subscriptions.modify place change }

/-- Ends a subscription. What is queued can still be taken. -/
def unsubscribe (b : Broker) (place : Nat) : Broker :=
  b.update place (fun s => { s with attached := false })

/-- Takes the oldest queued event of a subscription, if there is one. -/
def receive (b : Broker) (place : Nat) : Option Event × Broker :=
  (b.subscriptions[place]?.bind (fun s => s.queue.head?),
    b.update place (fun s => { s with queue := s.queue.tail }))

/-- Takes all queued events of a subscription; tells whether it has ended. -/
def drain (b : Broker) (place : Nat) : List Event × Bool × Broker :=
  match b.subscriptions[place]? with
  | none => ([], true, b)
  | some s => (s.queue, s.ended, b.update place (fun s => { s with queue := [] }))

/-- The number of subscriptions of a topic. -/
def count (b : Broker) (name : String) : Nat :=
  (b.subscriptions.filter (fun s => s.attached && s.topic == name)).length

/-- Closes the broker and ends its subscriptions. -/
def close (b : Broker) : Broker :=
  { b with
    closed := true
    subscriptions := b.subscriptions.map (fun s =>
      if s.attached then { s with attached := false, ended := true } else s) }

end Broker

end FlowScript
