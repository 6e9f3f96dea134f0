import FlowScript.Publish.Broker
import Mathlib.Data.List.DropRight

/-!
# Requests to a broker

What is asked of a broker is a list of requests. What they published under each topic, and how its
events should be kept, is read off the list alone; the broker agrees with it after every request. What
one request does to a subscription is said once, by `Moves`.
-/

namespace FlowScript.Broker

/-- What is asked of a broker. -/
inductive Request where
  | configure (topic : String) (retention : Retention)
  /-- Publishes an event; data that has no JSON form is none. -/
  | publish (topic type : String) (data : Option Json.Tree)
  | subscribe (topic : String)
  | unsubscribe (place : Nat)
  | receive (place : Nat)
  | close

/-- The broker after a request. A request that is refused leaves it as it is. -/
def act (b : Broker) : Request → Broker
  | .configure topic retention => b.configure topic retention
  | .publish topic type data => (data.bind (b.publish? topic type)).getD b
  | .subscribe topic => ((b.subscribe? topic).map Prod.snd).getD b
  | .unsubscribe place => b.unsubscribe place
  | .receive place => (b.receive place).2
  | .close => b.close

/-- A new broker after some requests. -/
def after (requests : List Request) : Broker :=
  requests.foldl act {}

/-! ## What the requests say -/

namespace Request

/-- The request closes the broker. -/
def isClose : Request → Bool
  | close => true
  | _ => false

/-- The type and the data that a request publishes under a topic. -/
def content? (name : String) : Request → Option (String × Json.Tree)
  | publish topic type data => if topic = name then data.map (fun d => (type, d)) else none
  | _ => none

/-- How a request says that a topic keeps its events. -/
def retention? (name : String) : Request → Option Retention
  | configure topic retention => if topic = name then some retention else none
  | _ => none

end Request

/-- The events of a topic that some requests publish: what has a JSON form and is not published after
the broker was closed. They are numbered from one. -/
def published (name : String) (requests : List Request) : List Event :=
  ((requests.takeWhile (fun r => !r.isClose)).filterMap (Request.content? name)).mapIdx
    (fun i c => ⟨name, c.1, c.2.compact .escaped, i + 1⟩)

/-- How some requests last said that a topic keeps its events. -/
def configured (name : String) (requests : List Request) : Retention :=
  (requests.filterMap (Request.retention? name)).getLast?.getD {}

/-! ## Topics -/

theorem topic_name (b : Broker) (name : String) : (b.topic name).name = name := by
  unfold topic
  cases h : b.topics.find? (fun t => t.name == name) with
  | none => rfl
  | some t => simpa using List.find?_some h

@[simp]
theorem setTopic_subscriptions (b : Broker) (t : Topic) :
    (b.setTopic t).subscriptions = b.subscriptions := by
  unfold setTopic
  split <;> rfl

@[simp]
theorem setTopic_closed (b : Broker) (t : Topic) : (b.setTopic t).closed = b.closed := by
  unfold setTopic
  split <;> rfl

theorem find?_replaced (topics : List Topic) (t : Topic) (name : String) :
    (topics.map (fun u => if u.name == t.name then t else u)).find? (fun u => u.name == name)
      = if t.name = name then (topics.find? (fun u => u.name == name)).map (fun _ => t)
        else topics.find? (fun u => u.name == name) := by
  induction topics with
  | nil => simp
  | cons u rest ih =>
    by_cases hu : u.name = t.name <;> by_cases ht : t.name = name <;>
      simp_all [List.find?_cons]

theorem topic_setTopic_self (b : Broker) (t : Topic) : (b.setTopic t).topic t.name = t := by
  unfold setTopic topic
  split
  case isTrue h =>
    obtain ⟨u, hu, hname⟩ := List.any_eq_true.mp h
    have hfound : (b.topics.find? (fun u => u.name == t.name)).isSome :=
      List.find?_isSome.mpr ⟨u, hu, hname⟩
    obtain ⟨v, hv⟩ := Option.isSome_iff_exists.mp hfound
    rw [find?_replaced, if_pos rfl, hv]
    rfl
  case isFalse h =>
    have hnone : b.topics.find? (fun u => u.name == t.name) = none := by
      simpa using h
    simp [List.find?_append, hnone]

theorem topic_setTopic_of_ne (b : Broker) (t : Topic) (name : String) (h : t.name ≠ name) :
    (b.setTopic t).topic name = b.topic name := by
  unfold setTopic topic
  split
  · rw [find?_replaced, if_neg h]
  · simp [List.find?_append, h]

theorem keep_name (t : Topic) (e : Event) : (keep t e).name = t.name := by
  unfold keep
  split <;> rfl

theorem keep_version (t : Topic) (e : Event) : (keep t e).version = t.version := by
  unfold keep
  split <;> rfl

/-! ## What one request does -/

/-- The event that a request adds to a topic. -/
def added? (b : Broker) (name : String) : Request → Option Event
  | .publish topic type (some data) =>
    if b.closed = false ∧ topic = name then
      some ⟨name, type, data.compact .escaped, (b.topic name).version + 1⟩
    else none
  | _ => none

/-- The events that a request takes from a subscription. -/
def given (b : Broker) (place : Nat) : Request → List Event
  | .receive p => if p = place then (b.receive place).1.toList else []
  | _ => []

theorem act_closed (b : Broker) (r : Request) : (b.act r).closed = (b.closed || r.isClose) := by
  cases r with
  | configure topic retention => simp [act, configure, Request.isClose]
  | publish topic type data =>
    cases data with
    | none => simp [act, Request.isClose]
    | some data =>
      by_cases hb : b.closed <;> simp [act, publish?, hb, Request.isClose]
  | subscribe topic =>
    by_cases hb : b.closed <;> simp [act, subscribe?, hb, Request.isClose]
  | unsubscribe place => simp [act, unsubscribe, update, Request.isClose]
  | receive place => simp [act, receive, update, Request.isClose]
  | close => simp [act, close, Request.isClose]

/-- A topic changes when an event is added to it and when it is configured. -/
theorem act_topic (b : Broker) (r : Request) (name : String) :
    (b.act r).topic name =
      match b.added? name r with
      | some e => keep { b.topic name with version := (b.topic name).version + 1 } e
      | none => { b.topic name with
          retention := (r.retention? name).getD (b.topic name).retention } := by
  cases r with
  | configure topic retention =>
    by_cases ht : topic = name
    · subst ht
      have h := topic_setTopic_self b { b.topic topic with retention }
      rw [topic_name] at h
      simpa [act, configure, added?, Request.retention?] using h
    · have h := topic_setTopic_of_ne b { b.topic topic with retention } name
        (by simpa [topic_name] using ht)
      simpa [act, configure, added?, Request.retention?, ht] using h
  | publish topic type data =>
    cases data with
    | none => rfl
    | some data =>
      by_cases hb : b.closed
      · simp [act, publish?, hb, added?, Request.retention?]
      · let e : Event := ⟨topic, type, data.compact .escaped, (b.topic topic).version + 1⟩
        let t := keep { b.topic topic with version := (b.topic topic).version + 1 } e
        have hname : t.name = topic := (keep_name _ _).trans (topic_name b topic)
        have hact : (b.act (.publish topic type (some data))).topic name =
            (b.setTopic t).topic name := by
          simp [act, publish?, hb, t, e, Broker.topic]
        rw [hact]
        by_cases ht : topic = name
        · subst ht
          have h := topic_setTopic_self b t
          rw [hname] at h
          simpa [added?, hb] using h
        · have h := topic_setTopic_of_ne b t name (by rw [hname]; exact ht)
          simpa [added?, ht, Request.retention?] using h
  | subscribe topic =>
    by_cases hb : b.closed <;>
      simp [act, subscribe?, hb, added?, Request.retention?, Broker.topic]
  | unsubscribe place => rfl
  | receive place => rfl
  | close => rfl

/-- What a request does to a subscription: whether it closes the broker, the event that it adds to the
topic, the events that it takes, and the subscription before and after. -/
inductive Moves : Bool → Option Event → List Event → Subscription → Subscription → Prop
  | rests {s : Subscription} : Moves false none [] s s
  | passed {s : Subscription} (e : Event) : s.attached = false → Moves false (some e) [] s s
  | offered {s : Subscription} (e : Event) :
    s.attached = true → Moves false (some e) [] s (s.offer e)
  | took {s : Subscription} {e : Event} {rest : List Event} :
    s.queue = e :: rest → Moves false none [e] s { s with queue := rest }
  | left {s : Subscription} : Moves false none [] s { s with attached := false }
  | ended {s : Subscription} :
    s.attached = true → Moves true none [] s { s with attached := false, ended := true }
  | spared {s : Subscription} : s.attached = false → Moves true none [] s s

theorem update_subscription (b : Broker) (p place : Nat) (change : Subscription → Subscription) :
    (b.update p change).subscriptions[place]? =
      if p = place then b.subscriptions[place]?.map change else b.subscriptions[place]? := by
  simp only [update, List.getElem?_modify]
  split <;> simp

/-- What a request does to the subscription at a place. -/
theorem act_moves (b : Broker) (r : Request) (place : Nat) (s : Subscription)
    (hs : b.subscriptions[place]? = some s) :
    ∃ s', (b.act r).subscriptions[place]? = some s' ∧
      Moves r.isClose (b.added? s.topic r) (b.given place r) s s' := by
  cases r with
  | configure topic retention =>
    exact ⟨s, by simpa [act, configure] using hs, .rests⟩
  | publish topic type data =>
    cases data with
    | none => exact ⟨s, hs, .rests⟩
    | some data =>
      by_cases hb : b.closed
      · refine ⟨s, by simpa [act, publish?, hb] using hs, ?_⟩
        simpa [added?, given, hb, Request.isClose] using Moves.rests
      · let e : Event := ⟨topic, type, data.compact .escaped, (b.topic topic).version + 1⟩
        have hact : (b.act (.publish topic type (some data))).subscriptions[place]? =
            some (if s.attached && s.topic == topic then s.offer e else s) := by
          simp [act, publish?, hb, hs, e]
        refine ⟨_, hact, ?_⟩
        by_cases ht : topic = s.topic
        · subst ht
          have hadded : b.added? s.topic (.publish s.topic type (some data)) = some e := by
            simp [added?, hb, e]
          rw [hadded]
          by_cases ha : s.attached
          · simpa [ha, given, Request.isClose] using Moves.offered e ha
          · simpa [ha, given, Request.isClose] using Moves.passed e (by simpa using ha)
        · have hne : ¬ (s.topic == topic) = true := by simpa using Ne.symm ht
          simpa [added?, given, ht, hne, Request.isClose] using Moves.rests
  | subscribe topic =>
    refine ⟨s, ?_, .rests⟩
    by_cases hb : b.closed
    · simpa [act, subscribe?, hb] using hs
    · have hlt : place < b.subscriptions.length := (List.getElem?_eq_some_iff.mp hs).1
      simpa [act, subscribe?, hb, List.getElem?_append_left hlt] using hs
  | unsubscribe p =>
    have hact : (b.act (.unsubscribe p)).subscriptions[place]? = _ :=
      update_subscription b p place (fun s => { s with attached := false })
    by_cases hp : p = place
    · exact ⟨{ s with attached := false }, by simpa only [hp, hs, if_true, Option.map_some] using hact, .left⟩
    · exact ⟨s, by simpa only [hp, hs, if_false] using hact, .rests⟩
  | receive p =>
    have hact : (b.act (.receive p)).subscriptions[place]? = _ :=
      update_subscription b p place (fun s => { s with queue := s.queue.tail })
    by_cases hp : p = place
    · refine ⟨{ s with queue := s.queue.tail },
        by simpa only [hp, hs, if_true, Option.map_some] using hact, ?_⟩
      have hgiven : b.given place (.receive p) = s.queue.head?.toList := by
        simp [given, receive, hp, hs]
      rw [hgiven]
      -- nothing is taken from an empty queue, which is then left as it is
      obtain ⟨topic, queue, attached, ended⟩ := s
      cases queue with
      | nil => exact .rests
      | cons e rest => exact .took rfl
    · refine ⟨s, by simpa only [hp, hs, if_false] using hact, ?_⟩
      have hgiven : b.given place (.receive p) = [] := if_neg hp
      rw [hgiven]
      exact .rests
  | close =>
    by_cases ha : s.attached
    · exact ⟨{ s with attached := false, ended := true }, by simp [act, close, hs, ha], .ended ha⟩
    · exact ⟨s, by simp [act, close, hs, ha], .spared (by simpa using ha)⟩

/-- Events that are queued one after another take what room there is. -/
theorem foldl_offer (events : List Event) (s : Subscription) :
    events.foldl Subscription.offer s =
      { s with queue := s.queue ++ events.take (Subscription.capacity - s.queue.length) } := by
  induction events generalizing s with
  | nil => simp
  | cons e rest ih =>
    rw [List.foldl_cons, ih]
    by_cases hroom : s.queue.length < Subscription.capacity
    · obtain ⟨n, hn⟩ : ∃ n, Subscription.capacity - s.queue.length = n + 1 :=
        ⟨Subscription.capacity - s.queue.length - 1, by omega⟩
      have hn' : Subscription.capacity - (s.queue.length + 1) = n := by omega
      simp [Subscription.offer, hroom, hn, hn']
    · have hn : Subscription.capacity - s.queue.length = 0 := by omega
      simp [Subscription.offer, hroom, hn]

/-- Only subscribing changes the number of subscriptions. -/
theorem length_act (b : Broker) (r : Request) (hr : ∀ topic, r ≠ .subscribe topic) :
    (b.act r).subscriptions.length = b.subscriptions.length := by
  cases r with
  | configure topic retention => simp [act, configure]
  | publish topic type data =>
    cases data with
    | none => rfl
    | some data =>
      by_cases hb : b.closed <;> simp [act, publish?, hb]
  | subscribe topic => exact absurd rfl (hr topic)
  | unsubscribe p => simp [act, unsubscribe, update]
  | receive p => simp [act, receive, update]
  | close => simp [act, close]

/-- What a new subscription of a topic holds. -/
def fresh (b : Broker) (name : String) : Subscription :=
  { topic := name, queue := (replay (b.topic name)).take Subscription.capacity }

/-- An open broker adds a subscription behind the others. -/
theorem act_subscribe (b : Broker) (name : String) (hb : b.closed = false) :
    (b.act (.subscribe name)).subscriptions = b.subscriptions ++ [b.fresh name] := by
  simp [act, subscribe?, hb, foldl_offer, fresh]

/-- A subscription appears behind the others, where an open broker is asked for one. -/
theorem act_subscribes (b : Broker) (r : Request) (place : Nat) (s : Subscription)
    (hnone : b.subscriptions[place]? = none) (hs : (b.act r).subscriptions[place]? = some s) :
    r = .subscribe s.topic ∧ b.closed = false ∧ place = b.subscriptions.length ∧
      s = b.fresh s.topic := by
  have hlen : b.subscriptions.length ≤ place := List.getElem?_eq_none_iff.mp hnone
  have hlt : place < (b.act r).subscriptions.length := (List.getElem?_eq_some_iff.mp hs).1
  obtain ⟨topic, rfl⟩ : ∃ topic, r = .subscribe topic := by
    by_contra hother
    have := length_act b r (fun topic h => hother ⟨topic, h⟩)
    omega
  have hb : b.closed = false := by
    by_contra hclosed
    have hsame : b.act (.subscribe topic) = b := by
      simp [act, subscribe?, eq_true_of_ne_false hclosed]
    rw [hsame] at hlt
    omega
  have hact := act_subscribe b topic hb
  rw [hact, List.length_append, List.length_singleton] at hlt
  have hplace : place = b.subscriptions.length := by omega
  have hnew : b.fresh topic = s := by simpa [hact, hplace] using hs
  subst hnew
  exact ⟨rfl, hb, hplace, rfl⟩

/-! ## Brokers after some requests -/

theorem after_concat (requests : List Request) (r : Request) :
    after (requests ++ [r]) = (after requests).act r := by
  simp [after]

/-- The broker is closed once it was told to close. -/
theorem after_closed (requests : List Request) :
    (after requests).closed = requests.any Request.isClose := by
  induction requests using List.reverseRecOn with
  | nil => rfl
  | append_singleton requests r ih => rw [after_concat, act_closed, ih, List.any_append]; simp

/-- One more request publishes at most one more event, with the next number. -/
theorem published_concat_eq (name : String) (requests : List Request) (r : Request) :
    published name (requests ++ [r]) = published name requests ++
      (if requests.any Request.isClose then none
        else (r.content? name).map (fun c =>
          (⟨name, c.1, c.2.compact .escaped, (published name requests).length + 1⟩ :
            Event))).toList := by
  by_cases hclosed : requests.any Request.isClose
  · have hfront : (requests ++ [r]).takeWhile (fun r => !r.isClose) =
        requests.takeWhile (fun r => !r.isClose) := by
      rw [List.takeWhile_append, if_neg]
      intro hall
      have hopen := List.takeWhile_eq_self_iff.mp
        ((List.takeWhile_prefix _).eq_of_length hall)
      obtain ⟨c, hc, hclose⟩ := List.any_eq_true.mp hclosed
      simpa [hclose] using hopen c hc
    simp [published, hfront, hclosed]
  · have hopen : requests.takeWhile (fun r => !r.isClose) = requests := by
      apply List.takeWhile_eq_self_iff.mpr
      simpa using hclosed
    have hfront : ((requests ++ [r]).takeWhile (fun r => !r.isClose)).filterMap
        (Request.content? name) =
          requests.filterMap (Request.content? name) ++ (r.content? name).toList := by
      rw [List.takeWhile_append, if_pos (by rw [hopen]), List.filterMap_append]
      congr 1
      by_cases hr : r.isClose
      · cases r <;> simp_all [Request.isClose, Request.content?]
      · cases hc : r.content? name <;> simp [hr, hc]
    rw [if_neg hclosed, published, published, hfront, hopen]
    cases hc : r.content? name with
    | none => simp
    | some c => simp [List.mapIdx_concat]

/-- The content of a request and whether the broker is open decide what is added to a topic. -/
theorem added?_eq (b : Broker) (name : String) (r : Request) :
    b.added? name r = if b.closed then none
      else (r.content? name).map
        (fun c => ⟨name, c.1, c.2.compact .escaped, (b.topic name).version + 1⟩) := by
  cases r with
  | publish topic type data =>
    cases data with
    | none => simp [added?, Request.content?]
    | some data =>
      by_cases hb : b.closed <;> by_cases ht : topic = name <;>
        simp [added?, Request.content?, hb, ht]
  | _ => simp [added?, Request.content?]

/-- The version of a topic counts what was published under it. -/
theorem version_after (name : String) (requests : List Request) :
    ((after requests).topic name).version = (published name requests).length := by
  induction requests using List.reverseRecOn with
  | nil => rfl
  | append_singleton requests r ih =>
    rw [after_concat, act_topic, published_concat_eq, added?_eq, after_closed, ih]
    by_cases hclosed : requests.any Request.isClose
    · simp [hclosed, ih]
    · cases hc : r.content? name with
      | none => simp [hclosed, ih]
      | some c => simp [hclosed, keep_version]

/-- What a request adds to a topic is the next event that is published under it. -/
theorem published_concat (name : String) (requests : List Request) (r : Request) :
    published name (requests ++ [r]) =
      published name requests ++ ((after requests).added? name r).toList := by
  rw [published_concat_eq, added?_eq, after_closed, version_after]

end FlowScript.Broker
