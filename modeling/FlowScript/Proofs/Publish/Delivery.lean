import FlowScript.Proofs.Publish.Requests

/-!
# Delivery of events

The stream of a subscription is what was taken from it, followed by what is still queued. Whatever is
asked of a broker, in whatever order, each stream is an ordered part of what was published under its
topic, and only a full queue loses events.
-/

namespace FlowScript.Broker

/-! ## Streams -/

/-- The events that requests take from a subscription, one after another. -/
def received (place : Nat) : Broker → List Request → List Event
  | _, [] => []
  | b, r :: rest => b.given place r ++ received place (b.act r) rest

/-- What waits at a subscription. -/
def waiting (b : Broker) (place : Nat) : List Event :=
  ((b.subscriptions[place]?).map Subscription.queue).getD []

/-- All events that reached a subscription of a new broker, taken or not. -/
def stream (place : Nat) (requests : List Request) : List Event :=
  received place {} requests ++ (after requests).waiting place

theorem received_concat (place : Nat) (b : Broker) (requests : List Request) (r : Request) :
    received place b (requests ++ [r]) =
      received place b requests ++ (requests.foldl act b).given place r := by
  induction requests generalizing b with
  | nil => simp [received]
  | cons first rest ih => simp [received, ih]

theorem waiting_eq (b : Broker) (place : Nat) (s : Subscription)
    (hs : b.subscriptions[place]? = some s) : b.waiting place = s.queue := by
  simp [waiting, hs]

/-! ## What one request keeps -/

section Moves

variable {closing : Bool} {new : Option Event} {taken : List Event} {s s' : Subscription}

theorem Moves.topic (h : Moves closing new taken s s') : s'.topic = s.topic := by
  cases h with
  | offered e _ => unfold Subscription.offer; split <;> rfl
  | _ => rfl

/-- A stream grows by the new event exactly if there is room for it. -/
theorem Moves.stream (h : Moves closing new taken s s') :
    taken ++ s'.queue = s.queue ++
      (if s.attached = true ∧ s.queue.length < Subscription.capacity then new.toList else []) := by
  cases h with
  | passed e ha => simp [ha]
  | offered e ha =>
    by_cases hroom : s.queue.length < Subscription.capacity <;>
      simp [Subscription.offer, hroom, ha]
  | took hq => simp [hq]
  | _ => simp

theorem Moves.length_queue (h : Moves closing new taken s s')
    (hle : s.queue.length ≤ Subscription.capacity) :
    s'.queue.length ≤ Subscription.capacity := by
  cases h with
  | offered e _ =>
    unfold Subscription.offer
    split
    · simp only [List.length_append, List.length_singleton]; omega
    · exact hle
  | took hq => simp only [hq, List.length_cons] at hle; simp only; omega
  | _ => exact hle

/-- A detached subscription stays detached, and closing leaves no other. -/
theorem Moves.attached (h : Moves closing new taken s s') (ha : s'.attached = true) :
    s.attached = true ∧ closing = false := by
  cases h with
  | offered e ha' => exact ⟨ha', rfl⟩
  | left => cases ha
  | ended _ => cases ha
  | spared ha' => rw [ha'] at ha; cases ha
  | _ => exact ⟨ha, rfl⟩

/-- Closing ends the subscriptions that are attached; nothing else ends one. -/
theorem Moves.ended_eq (h : Moves closing new taken s s') :
    s'.ended = (s.ended || (closing && s.attached)) := by
  cases h with
  | offered e _ => unfold Subscription.offer; split <;> simp
  | ended ha => simp [ha]
  | spared ha => simp [ha]
  | _ => simp

end Moves

/-! ## Subscriptions of a broker after some requests -/

/-- What holds of every subscription. -/
structure Sound (closed : Bool) (s : Subscription) : Prop where
  /-- The queue has not outgrown its room. -/
  room : s.queue.length ≤ Subscription.capacity
  /-- No subscription that gets events has ended. -/
  opened : s.attached = true → s.ended = false
  /-- A closed broker has detached all. -/
  detached : closed = true → s.attached = false

theorem sound_act (b : Broker) (r : Request)
    (hb : ∀ (place : Nat) (s : Subscription),
      b.subscriptions[place]? = some s → Sound b.closed s)
    (place : Nat) (s' : Subscription) (hs' : (b.act r).subscriptions[place]? = some s') :
    Sound (b.act r).closed s' := by
  cases hs : b.subscriptions[place]? with
  | none =>
    obtain ⟨hr, hopen, -, hfresh⟩ := act_subscribes b r place s' hs hs'
    rw [hfresh]
    refine ⟨?_, fun _ => rfl, ?_⟩
    · simp only [fresh, List.length_take]
      omega
    · rw [act_closed, hr, hopen]
      simp [Request.isClose]
  | some s =>
    obtain ⟨t, ht, hmoves⟩ := act_moves b r place s hs
    obtain rfl : t = s' := Option.some.inj (ht.symm.trans hs')
    have hsound := hb place s hs
    refine ⟨hmoves.length_queue hsound.room, ?_, ?_⟩
    · intro ha
      obtain ⟨hbefore, hclosing⟩ := hmoves.attached ha
      rw [hmoves.ended_eq, hsound.opened hbefore, hclosing]
      rfl
    · intro hclosed
      by_contra ha
      obtain ⟨hbefore, hclosing⟩ := hmoves.attached (eq_true_of_ne_false ha)
      rw [act_closed, hclosing, Bool.or_false] at hclosed
      rw [hsound.detached hclosed] at hbefore
      cases hbefore

theorem sound_after (requests : List Request) (place : Nat) (s : Subscription)
    (hs : (after requests).subscriptions[place]? = some s) : Sound (after requests).closed s := by
  induction requests using List.reverseRecOn generalizing place s with
  | nil => simp [after] at hs
  | append_singleton requests r ih =>
    rw [after_concat] at hs ⊢
    exact sound_act _ r ih place s hs

/-! ## What is kept -/

theorem configured_concat (name : String) (requests : List Request) (r : Request) :
    configured name (requests ++ [r]) = (r.retention? name).getD (configured name requests) := by
  cases hr : r.retention? name with
  | none => simp [configured, hr]
  | some retention => simp [configured, hr]

theorem keep_retention (t : Topic) (e : Event) : (keep t e).retention = t.retention := by
  unfold keep
  split <;> rfl

/-- What is added to a topic does not configure it. -/
theorem retention?_of_added? (b : Broker) (name : String) (r : Request) (e : Event)
    (h : b.added? name r = some e) : r.retention? name = none := by
  cases r with
  | publish topic type data => rfl
  | _ => simp [added?] at h

theorem retention_after (name : String) (requests : List Request) :
    ((after requests).topic name).retention = configured name requests := by
  induction requests using List.reverseRecOn with
  | nil => rfl
  | append_singleton requests r ih =>
    rw [after_concat, act_topic, configured_concat]
    cases hadded : (after requests).added? name r with
    | none => simp [ih]
    | some e => simp [keep_retention, ih, retention?_of_added? _ _ _ _ hadded]

theorem kept_keep (t : Topic) (e : Event) :
    (keep t e).kept =
      if t.retention.size ≤ 0 then t.kept else (t.kept ++ [e]).rtake t.retention.size.toNat := by
  unfold keep
  split <;> rfl

theorem length_rtake_le {α : Type} (l : List α) (n : Nat) : (l.rtake n).length ≤ n := by
  simp only [List.rtake, List.length_drop]
  omega

/-- What is kept of a topic is an ordered part of what was published. -/
theorem kept_sublist (name : String) (requests : List Request) :
    ((after requests).topic name).kept.Sublist (published name requests) := by
  induction requests using List.reverseRecOn with
  | nil => exact .slnil
  | append_singleton requests r ih =>
    rw [after_concat, act_topic, published_concat]
    cases hadded : (after requests).added? name r with
    | none => simpa using ih
    | some e =>
      rw [kept_keep]
      split
      · exact ih.trans (List.sublist_append_left _ _)
      · exact (List.drop_sublist _ _).trans (ih.append (List.Sublist.refl _))

/-- The last events of a list that grows can be found among the last ones so far. -/
theorem rtake_concat_rtake {α : Type} (l : List α) (x : α) (n : Nat) :
    (l.rtake n ++ [x]).rtake n = (l ++ [x]).rtake n := by
  cases n with
  | zero => simp
  | succ n =>
    rw [List.rtake_concat_succ, List.rtake_concat_succ, List.rtake_eq_reverse_take_reverse,
      List.rtake_eq_reverse_take_reverse, List.rtake_eq_reverse_take_reverse]
    simp [List.take_take]

/-- Nothing was published under the topic before it was last configured. -/
def ConfiguredFirst (name : String) (requests : List Request) : Prop :=
  ∃ before rest, requests = before ++ rest ∧ published name before = [] ∧
    ∀ r ∈ rest, r.retention? name = none

/-- A topic whose retention does not change keeps the last events that were published. -/
theorem kept_of_configuredFirst (name : String) (requests : List Request)
    (h : ConfiguredFirst name requests) :
    ((after requests).topic name).kept =
      (published name requests).rtake (configured name requests).size.toNat := by
  obtain ⟨before, rest, rfl, hnone, hsame⟩ := h
  induction rest using List.reverseRecOn with
  | nil =>
    have hkept := kept_sublist name before
    rw [hnone, List.sublist_nil] at hkept
    simp [hkept, hnone]
  | append_singleton rest r ih =>
    have hr : r.retention? name = none := hsame r (by simp)
    specialize ih (fun r hr => hsame r (by simp [hr]))
    rw [← List.append_assoc, after_concat, act_topic, configured_concat, hr, published_concat]
    cases hadded : (after (before ++ rest)).added? name r with
    | none => simpa using ih
    | some e =>
      simp only [Option.getD_none, Option.toList_some]
      rw [kept_keep]
      simp only [retention_after, ih]
      split
      case isTrue hsize => simp [Int.toNat_of_nonpos hsize]
      case isFalse => exact rtake_concat_rtake _ _ _

/-! ## How streams grow -/

/-- One more request adds to the stream of an attached subscription what it adds to the topic, if
there is room. -/
theorem stream_concat (place : Nat) (requests : List Request) (r : Request) (s : Subscription)
    (hs : (after requests).subscriptions[place]? = some s) :
    stream place (requests ++ [r]) = stream place requests ++
      (if s.attached = true ∧ s.queue.length < Subscription.capacity
        then ((after requests).added? s.topic r).toList else []) := by
  obtain ⟨s', hs', hmoves⟩ := act_moves _ r place s hs
  have hgrows := hmoves.stream
  rw [stream, stream, received_concat, after_concat, waiting_eq _ _ _ hs', waiting_eq _ _ _ hs,
    List.append_assoc, List.append_assoc, ← hgrows]
  rfl

/-- Nothing is taken from a subscription that does not exist yet. -/
theorem stream_of_none (place : Nat) (requests : List Request)
    (hnone : (after requests).subscriptions[place]? = none) : stream place requests = [] := by
  induction requests using List.reverseRecOn with
  | nil => rfl
  | append_singleton requests r ih =>
    rw [after_concat] at hnone
    cases hs : (after requests).subscriptions[place]? with
    | some s =>
      obtain ⟨s', hs', -⟩ := act_moves _ r place s hs
      rw [hs'] at hnone
      cases hnone
    | none =>
      have hbefore := List.append_eq_nil_iff.mp (ih hs)
      have hgiven : (after requests).given place r = [] := by
        cases r with
        | receive p =>
          by_cases hp : p = place <;> simp [given, receive, hp, hs]
        | _ => rfl
      have hlast : received place {} (requests ++ [r]) = [] := by
        rw [received_concat, hbefore.1]
        exact hgiven
      simp [stream, hlast, after_concat, waiting, hnone]

/-- A new subscription starts with what is replayed. -/
theorem stream_subscribe (name : String) (requests : List Request)
    (hopen : (after requests).closed = false) :
    stream (after requests).subscriptions.length (requests ++ [.subscribe name]) =
      (replay ((after requests).topic name)).take Subscription.capacity := by
  have hbefore := stream_of_none (after requests).subscriptions.length requests (by simp)
  have hnone : received (after requests).subscriptions.length {} requests = [] :=
    (List.append_eq_nil_iff.mp hbefore).1
  have hnew : (after (requests ++ [.subscribe name])).subscriptions[
      (after requests).subscriptions.length]? = some ((after requests).fresh name) := by
    rw [after_concat, act_subscribe _ _ hopen]
    simp
  rw [stream, received_concat, hnone, waiting_eq _ _ _ hnew]
  rfl

theorem replay_sublist (t : Topic) : (replay t).Sublist t.kept := by
  unfold replay
  split
  · exact List.Sublist.refl _
  · exact List.drop_sublist _ _

/-- A stream is an ordered part of what was published under the topic of its subscription. -/
theorem stream_sublist (place : Nat) (requests : List Request) (s : Subscription)
    (hs : (after requests).subscriptions[place]? = some s) :
    (stream place requests).Sublist (published s.topic requests) := by
  induction requests using List.reverseRecOn generalizing s with
  | nil => simp [after] at hs
  | append_singleton requests r ih =>
    rw [after_concat] at hs
    cases hbefore : (after requests).subscriptions[place]? with
    | none =>
      obtain ⟨hr, hopen, hplace, -⟩ := act_subscribes _ r place s hbefore hs
      rw [hr, hplace, stream_subscribe _ _ hopen, published_concat]
      refine ((List.take_sublist _ _).trans (replay_sublist _)).trans ?_
      exact (kept_sublist _ _).trans (List.sublist_append_left _ _)
    | some t =>
      obtain ⟨s', hs', hmoves⟩ := act_moves _ r place t hbefore
      obtain rfl : s' = s := Option.some.inj (hs'.symm.trans hs)
      rw [stream_concat place requests r t hbefore, published_concat, hmoves.topic]
      refine (ih t hbefore).append ?_
      split
      · exact List.Sublist.refl _
      · exact List.nil_sublist _

/-- Later requests add to a stream an ordered part of what they publish. -/
theorem stream_append (place : Nat) (requests later : List Request) (s : Subscription)
    (hs : (after requests).subscriptions[place]? = some s) :
    ∃ s' more new, (after (requests ++ later)).subscriptions[place]? = some s' ∧
      s'.topic = s.topic ∧
      stream place (requests ++ later) = stream place requests ++ more ∧
      published s.topic (requests ++ later) = published s.topic requests ++ new ∧
      more.Sublist new := by
  induction later using List.reverseRecOn with
  | nil => exact ⟨s, [], [], by simpa using hs, rfl, by simp, by simp, .slnil⟩
  | append_singleton later r ih =>
    obtain ⟨s', more, new, hs', htopic, hstream, hpublished, hsub⟩ := ih
    obtain ⟨s'', hs'', hmoves⟩ := act_moves _ r place s' hs'
    rw [← List.append_assoc]
    have hgrows := stream_concat place (requests ++ later) r s' hs'
    rw [hstream, htopic] at hgrows
    have hadds := published_concat s.topic (requests ++ later) r
    rw [hpublished] at hadds
    refine ⟨s'', _, _, by rw [after_concat]; exact hs'', hmoves.topic.trans htopic,
      hgrows.trans (List.append_assoc _ _ _), hadds.trans (List.append_assoc _ _ _),
      hsub.append ?_⟩
    split
    · exact List.Sublist.refl _
    · exact List.nil_sublist _

/-! ## Detached subscriptions -/

/-- A detached subscription stays detached, and nothing reaches it any more. -/
theorem stream_of_detached (place : Nat) (requests later : List Request) (s : Subscription)
    (hs : (after requests).subscriptions[place]? = some s) (ha : s.attached = false) :
    (∃ s', (after (requests ++ later)).subscriptions[place]? = some s' ∧ s'.attached = false) ∧
      stream place (requests ++ later) = stream place requests := by
  induction later using List.reverseRecOn with
  | nil => exact ⟨⟨s, by simpa using hs, ha⟩, by simp⟩
  | append_singleton later r ih =>
    obtain ⟨⟨s', hs', ha'⟩, hstream⟩ := ih
    obtain ⟨s'', hs'', hmoves⟩ := act_moves _ r place s' hs'
    rw [← List.append_assoc]
    constructor
    · refine ⟨s'', by rw [after_concat]; exact hs'', ?_⟩
      by_contra hattached
      rw [(hmoves.attached (eq_true_of_ne_false hattached)).1] at ha'
      cases ha'
    · rw [stream_concat _ _ _ _ hs', hstream]
      simp [ha']

/-- The request ends the subscription at a place. -/
def ends (b : Broker) (place : Nat) (r : Request) : Bool :=
  r.isClose && (b.subscriptions[place]?).any Subscription.attached

/-- How many of some requests end the subscription at a place. -/
def endings (place : Nat) : Broker → List Request → Nat
  | _, [] => 0
  | b, r :: rest => (b.ends place r).toNat + endings place (b.act r) rest

theorem endings_concat (place : Nat) (b : Broker) (requests : List Request) (r : Request) :
    endings place b (requests ++ [r]) =
      endings place b requests + ((requests.foldl act b).ends place r).toNat := by
  induction requests generalizing b with
  | nil => simp [endings]
  | cons first rest ih => simp [endings, ih, Nat.add_assoc]

/-- A subscription that has ended was ended by one request, any other by none. -/
theorem endings_eq (place : Nat) (requests : List Request) :
    endings place {} requests =
      if ((after requests).subscriptions[place]?).any Subscription.ended then 1 else 0 := by
  induction requests using List.reverseRecOn with
  | nil => simp [endings, after]
  | append_singleton requests r ih =>
    rw [endings_concat, ih, after_concat]
    show _ + ((after requests).ends place r).toNat = _
    cases hs : (after requests).subscriptions[place]? with
    | none =>
      cases hs' : ((after requests).act r).subscriptions[place]? with
      | none => simp [ends, hs]
      | some s' =>
        obtain ⟨-, -, -, hfresh⟩ := act_subscribes _ r place s' hs hs'
        have hended : s'.ended = false := by rw [hfresh]; rfl
        simp [ends, hs, hended]
    | some s =>
      obtain ⟨s', hs', hmoves⟩ := act_moves _ r place s hs
      have hopened := (sound_after requests place s hs).opened
      simp only [ends, hs, hs', Option.any_some, hmoves.ended_eq]
      by_cases ha : s.attached = true
      · cases hclose : r.isClose <;> simp [ha, hopened ha]
      · simp [ha]

/-! ## Delivery -/

theorem mem_close_iff (requests : List Request) :
    .close ∈ requests ↔ (after requests).closed = true := by
  rw [after_closed, List.any_eq_true]
  constructor
  · exact fun h => ⟨_, h, rfl⟩
  · rintro ⟨r, hr, hclose⟩
    cases r with
    | close => exact hr
    | _ => cases hclose

/-- The events of a topic have its name and are numbered from one. -/
theorem getElem?_published (name : String) (requests : List Request) (i : Nat) (e : Event)
    (h : (published name requests)[i]? = some e) : e.topic = name ∧ e.version = i + 1 := by
  simp only [published, List.getElem?_mapIdx, Option.map_eq_some_iff] at h
  obtain ⟨c, -, rfl⟩ := h
  exact ⟨rfl, rfl⟩

theorem published_versions (name : String) (requests : List Request) :
    (published name requests).Pairwise (fun e e' => e.version < e'.version) := by
  rw [List.pairwise_iff_getElem]
  intro i j hi hj hij
  have h := getElem?_published name requests i _ (List.getElem?_eq_getElem hi)
  have h' := getElem?_published name requests j _ (List.getElem?_eq_getElem hj)
  omega

/-- The queue of an attached subscription decides whether it gets a new event. -/
theorem mem_stream_iff (place : Nat) (requests later : List Request) (r : Request)
    (s : Subscription) (e : Event) (hs : (after requests).subscriptions[place]? = some s)
    (ha : s.attached = true) (hadded : (after requests).added? s.topic r = some e) :
    e ∈ stream place (requests ++ r :: later) ↔ s.queue.length < Subscription.capacity := by
  obtain ⟨s', hs', hmoves⟩ := act_moves _ r place s hs
  rw [← after_concat] at hs'
  obtain ⟨-, more, new, -, -, hstream, hpublished, hsub⟩ :=
    stream_append place (requests ++ [r]) later s' hs'
  have hfirst := stream_concat place requests r s hs
  have hnow := published_concat s.topic requests r
  rw [hadded, Option.toList_some] at hfirst hnow
  rw [hmoves.topic, hnow] at hpublished
  rw [List.append_assoc, List.singleton_append] at hstream hpublished
  -- all other events of the topic have other versions
  have hversions := published_versions s.topic (requests ++ r :: later)
  rw [hpublished, List.append_assoc, List.pairwise_append, List.singleton_append,
    List.pairwise_cons] at hversions
  have hbefore : e ∉ stream place requests := by
    intro he
    have := hversions.2.2 e ((stream_sublist place requests s hs).mem he) e (by simp)
    omega
  have hafter : e ∉ more := by
    intro he
    have := hversions.2.1.1 e (hsub.mem he)
    omega
  rw [hstream, hfirst]
  by_cases hroom : s.queue.length < Subscription.capacity <;> simp [ha, hroom, hbefore, hafter]

/-- What holds of a new broker after some requests, whatever is asked of it later. -/
structure Orderly (requests : List Request) : Prop where
  /-- The events of a topic are numbered from one. -/
  numbered : ∀ name (i : Nat) e,
    (published name requests)[i]? = some e → e.topic = name ∧ e.version = i + 1
  /-- A topic counts the events that were published under it. -/
  counted : ∀ name, ((after requests).topic name).version = (published name requests).length
  /-- Publishing succeeds while the broker is open. -/
  succeeds : ∀ name type data,
    ((after requests).publish? name type data).isSome ↔ .close ∉ requests
  /-- Publishing that fails changes nothing. -/
  refused : ∀ name type data, data = none ∨ .close ∈ requests →
    after (requests ++ [.publish name type data]) = after requests
  /-- A subscription gets events of its topic in their order, each at most once. -/
  ordered : ∀ place s, (after requests).subscriptions[place]? = some s →
    (stream place requests).Sublist (published s.topic requests) ∧
      (stream place requests).Pairwise (fun e e' => e.version < e'.version) ∧
      ∀ e ∈ stream place requests, e.topic = s.topic
  /-- What reached a subscription stays, and other events follow. -/
  grows : ∀ place later, stream place requests <+: stream place (requests ++ later)
  /-- An event that is published while a subscription is attached is missing from its stream exactly
  if the queue was full at that moment. -/
  delivered : ∀ place s r later, (after requests).subscriptions[place]? = some s →
    s.attached = true → ∀ e ∈ published s.topic (requests ++ [r]), e ∉ published s.topic requests →
      (e ∉ stream place (requests ++ r :: later) ↔ s.queue.length = Subscription.capacity)
  /-- A topic that is configured before its first event keeps its last events. -/
  kept : ∀ name, ConfiguredFirst name requests →
    ((after requests).topic name).kept =
      (published name requests).rtake (configured name requests).size.toNat
  /-- A new subscription of such a topic starts with all kept events or with the last one. -/
  replayed : ∀ name, ConfiguredFirst name requests → .close ∉ requests →
    stream (after requests).subscriptions.length (requests ++ [.subscribe name]) =
      if (configured name requests).replaysAll
      then ((published name requests).rtake (configured name requests).size.toNat).take
        Subscription.capacity
      else ((published name requests).rtake (configured name requests).size.toNat).rtake 1
  /-- A closed broker has no attached subscription. -/
  detached : .close ∈ requests → ∀ s ∈ (after requests).subscriptions, s.attached = false
  /-- No subscription is ended twice. -/
  endedOnce : ∀ place, endings place {} requests ≤ 1
  /-- A subscription that has ended is detached. -/
  opened : ∀ s ∈ (after requests).subscriptions, s.ended = true → s.attached = false
  /-- A detached subscription stays detached, and nothing reaches it any more. -/
  final : ∀ place s later, (after requests).subscriptions[place]? = some s → s.attached = false →
    (∃ s', (after (requests ++ later)).subscriptions[place]? = some s' ∧ s'.attached = false) ∧
      stream place (requests ++ later) = stream place requests

/-- Whatever is asked of a broker, it numbers events, keeps them and passes them on in order. -/
theorem orderly (requests : List Request) : Orderly requests where
  numbered := fun name i e => getElem?_published name requests i e
  counted := fun name => version_after name requests
  succeeds := by
    intro name type data
    rw [mem_close_iff]
    by_cases hb : (after requests).closed <;> simp [publish?, hb]
  refused := by
    intro name type data h
    rw [after_concat]
    rcases h with rfl | hclose
    · rfl
    · cases data with
      | none => rfl
      | some data => simp [act, publish?, (mem_close_iff requests).mp hclose]
  ordered := by
    intro place s hs
    have hsub := stream_sublist place requests s hs
    refine ⟨hsub, (published_versions s.topic requests).sublist hsub, ?_⟩
    intro e he
    obtain ⟨i, hi⟩ := List.mem_iff_getElem?.mp (hsub.mem he)
    exact (getElem?_published s.topic requests i e hi).1
  grows := by
    intro place later
    cases hs : (after requests).subscriptions[place]? with
    | none =>
      rw [stream_of_none place requests hs]
      exact List.nil_prefix
    | some s =>
      obtain ⟨-, more, -, -, -, hstream, -, -⟩ := stream_append place requests later s hs
      exact ⟨more, hstream.symm⟩
  delivered := by
    intro place s r later hs ha e he hnew
    have hadded : (after requests).added? s.topic r = some e := by
      rw [published_concat, List.mem_append] at he
      exact Option.mem_toList.mp (he.resolve_left hnew)
    have hroom := (sound_after requests place s hs).room
    rw [mem_stream_iff place requests later r s e hs ha hadded]
    omega
  kept := fun name => kept_of_configuredFirst name requests
  replayed := by
    intro name hfirst hclose
    have hopen : (after requests).closed = false := by
      simpa [mem_close_iff] using hclose
    rw [stream_subscribe name requests hopen, replay, retention_after,
      kept_of_configuredFirst name requests hfirst]
    split
    · rfl
    · show (List.rtake _ 1).take Subscription.capacity = _
      apply List.take_of_length_le
      exact (length_rtake_le _ 1).trans (by decide)
  detached := by
    intro hclose s hs
    obtain ⟨place, hplace⟩ := List.mem_iff_getElem?.mp hs
    exact (sound_after requests place s hplace).detached ((mem_close_iff requests).mp hclose)
  endedOnce := by
    intro place
    rw [endings_eq]
    split <;> omega
  opened := by
    intro s hs hended
    obtain ⟨place, hplace⟩ := List.mem_iff_getElem?.mp hs
    have hopened := (sound_after requests place s hplace).opened
    by_contra ha
    rw [hopened (eq_true_of_ne_false ha)] at hended
    cases hended
  final := fun place s later hs ha => stream_of_detached place requests later s hs ha

/-- The last three of five events wait for a new subscriber of a topic that keeps three. -/
example :
    let events := List.replicate 5 (Request.publish "test" "event" (some .null))
    let requests := .configure "test" { size := 3, replaysAll := true } :: events
    (stream 0 (requests ++ [.subscribe "test"])).map Event.version = [3, 4, 5] := by
  decide

end FlowScript.Broker
