import FlowScript.Json.Syntax

/-!
# Values where they stand

A value together with the characters it was written with. The items of a list and the members of an
object are cut out of the text around them, so every part of a document keeps its own spelling,
with the blanks inside it.

## Main definitions

- `Written` is a value with its spelling.
- `Written.first` reads the first value of a text, `Written.ofText` a text that holds one value.
- `Written.items` and `Written.members` cut a list and an object into their parts.

## Main results

- `parse_front` — what the reader took of a text holds the same value on its own
-/

namespace FlowScript.Json

variable {limit : Nat} {s : State} {c : Char} {cs rest : List Char} {t : Tree}

theorem beginValue_ne_complete : beginValue limit s c ≠ .complete t := by
  have hopen : ∀ frame mode, open_ limit s frame mode ≠ .complete t := by
    intro frame mode
    unfold open_
    split <;> nofun
  unfold beginValue
  repeat' split
  all_goals first | exact hopen _ _ | nofun

theorem finish_of_afterValue {frames : List Frame} {done : Tree}
    (h : afterValue frames done c = .complete t) : frames = [] ∧ done = t := by
  unfold afterValue at h
  split at h
  · exact ⟨rfl, Step.complete.inj h⟩
  · split at h
    · cases h
    · split at h <;> split at h <;> first | cases h | (split at h <;> cases h)

/-- A value that is complete before a character is complete at the end of a text as well. -/
theorem finish_of_complete (h : step limit s c = .complete t) : finish s = .ok t := by
  obtain ⟨frames, mode⟩ := s
  cases mode with
  | separator done =>
    obtain ⟨rfl, rfl⟩ := finish_of_afterValue h
    rfl
  | number phase text =>
    simp only [step] at h
    split at h
    · cases h
    · split at h
      · next hcomplete =>
        obtain ⟨rfl, rfl⟩ := finish_of_afterValue h
        simp [finish, hcomplete]
      · cases h
  | word name rest result =>
    simp only [step] at h
    split at h
    · obtain ⟨rfl, rfl⟩ := finish_of_afterValue h
      rfl
    · split at h <;> cases h
    · split at h <;> cases h
  | _ =>
    simp only [step] at h
    repeat' split at h
    all_goals first | exact absurd h beginValue_ne_complete | cases h

/-- What the reader took of a text holds the same value on its own. -/
theorem exists_runFrom_front (h : runFrom limit s cs = .ok (t, rest)) :
    ∃ front, cs = front ++ rest ∧ runFrom limit s front = .ok (t, []) := by
  induction cs generalizing s with
  | nil =>
    rw [runFrom] at h
    cases hf : finish s with
    | error e => simp [hf, Except.map] at h
    | ok done =>
      simp only [hf, Except.map, Except.ok.injEq, Prod.mk.injEq] at h
      obtain ⟨rfl, rfl⟩ := h
      exact ⟨[], rfl, by simp [runFrom, hf, Except.map]⟩
  | cons c cs ih =>
    rw [runFrom] at h
    cases hstep : step limit s c with
    | more next =>
      rw [hstep] at h
      obtain ⟨front, rfl, hfront⟩ := ih h
      exact ⟨c :: front, rfl, by simp [runFrom, hstep, hfront]⟩
    | complete done =>
      rw [hstep] at h
      simp only [Except.ok.injEq, Prod.mk.injEq] at h
      obtain ⟨rfl, rfl⟩ := h
      exact ⟨[], rfl, by simp [runFrom, finish_of_complete hstep, Except.map]⟩
    | fault f => simp [hstep] at h

/-- The part of a text in front of its rest. -/
def front (cs rest : List Char) : List Char :=
  cs.take (cs.length - rest.length)

theorem front_append (text rest : List Char) : front (text ++ rest) rest = text := by
  simp [front]

theorem front_append_of_read (h : read cs = .ok (t, rest)) : front cs rest ++ rest = cs := by
  obtain ⟨text, rfl, -⟩ := exists_runFrom_front h
  rw [front_append]

theorem parse_front (h : read cs = .ok (t, rest)) : parse (front cs rest) = .ok t := by
  obtain ⟨text, rfl, hrun⟩ := exists_runFrom_front h
  rw [front_append, parse, parseWithin, readWithin, hrun]
  rfl

/-- A value with the characters it is written with. -/
structure Written where
  text : List Char
  tree : Tree
  /-- The characters hold the value and nothing else. -/
  holds : parse text = .ok tree

namespace Written

instance : Inhabited Written := ⟨⟨"null".toList, .null, rfl⟩⟩

/-- The characters determine the value. -/
theorem eq_of_text_eq {v w : Written} (h : v.text = w.text) : v = w := by
  obtain ⟨text, tree, hv⟩ := v
  obtain ⟨_, tree', hw⟩ := w
  obtain rfl : text = _ := h
  obtain rfl : tree = tree' := Except.ok.inj (hv.symm.trans hw)
  rfl

/-- Takes a text that holds one value and nothing else. -/
def ofText (cs : List Char) : Except Fault Written :=
  match h : parse cs with
  | .error f => .error f
  | .ok t => .ok ⟨cs, t, h⟩

theorem text_of_ofText {cs : List Char} {w : Written} (h : ofText cs = .ok w) : w.text = cs := by
  unfold ofText at h
  split at h
  · cases h
  · obtain rfl := Except.ok.inj h
    rfl

theorem exists_ofText {cs : List Char} {t : Tree} (h : parse cs = .ok t) :
    ∃ w, ofText cs = .ok w ∧ w.text = cs ∧ w.tree = t := by
  unfold ofText
  split
  · next hparse => simp [h] at hparse
  · next t' hparse => exact ⟨_, rfl, rfl, Except.ok.inj (hparse.symm.trans h)⟩

/-- Reads the first value of a text: the value as it stands there, and the rest of the text. -/
def first (cs : List Char) : Except Fault (Written × List Char) :=
  let cs := cs.dropWhile isGap
  match h : read cs with
  | .error f => .error f
  | .ok (t, rest) => .ok (⟨front cs rest, t, parse_front h⟩, rest)

/-- What stands behind the bracket, the comma or the colon that comes next in a text. -/
def behindMark (cs : List Char) : List Char :=
  (cs.dropWhile isGap).drop 1

/-- The items of a list from the mark in front of the first of them on. -/
def itemsFrom : List Tree → List Char → List Written
  | [], _ => []
  | _ :: more, cs =>
    match first (behindMark cs) with
    | .error _ => []
    | .ok (item, rest) => item :: itemsFrom more rest

/-- What stands behind the given key, which comes next in a text. -/
def behindKey (key cs : List Char) : List Char :=
  (cs.dropWhile isGap).drop (key.length + 2)

/-- The members of an object from the mark in front of the first of them on. -/
def membersFrom : List (List Char × Tree) → List Char → List (List Char × Written)
  | [], _ => []
  | (key, _) :: more, cs =>
    match first (behindMark (behindKey key (behindMark cs))) with
    | .error _ => []
    | .ok (value, rest) => (key, value) :: membersFrom more rest

/-- The items of a list as they stand in its text. -/
def items (w : Written) : List Written :=
  match w.tree with
  | .array items => itemsFrom items w.text
  | _ => []

/-- The members of an object with their values as they stand in its text. -/
def members (w : Written) : List (List Char × Written) :=
  match w.tree with
  | .object members => membersFrom members w.text
  | _ => []

end Written

end FlowScript.Json
