import FlowScript.Json.Written
import FlowScript.Proofs.Json.Reader

/-!
# Values inside of documents

What is read inside of a list or an object does not depend on what is open around it. So the text of a
document holds, from the place where a value begins to the place where it ends, this value on its own.

## Main definitions

- `State.within` — a state with more lists and objects open around it

## Main results

- `step_within` — a step inside of other lists and objects
- `exists_value_of_runFrom_within` — what is read inside of others begins with a value of its own
- `exists_token` — the reader skips blanks and goes on with the character behind them
-/

namespace FlowScript.Json

variable {limit : Nat} {s next : State} {c : Char} {cs rest : List Char} {t : Tree}

/-! ## Values inside of lists and objects -/

/-- The mode belongs to what is open: a key or a first item is expected inside an object or a list
only. -/
def State.IsInner (s : State) : Prop :=
  match s.mode with
  | .firstItem | .firstKey | .key | .colon => s.frames ≠ []
  | .text .key _ | .escape .key _ | .hexDigits _ .key _ => s.frames ≠ []
  | _ => True

/-- A state with more lists and objects open around it. -/
def State.within (s : State) (outer : List Frame) : State :=
  ⟨s.frames ++ outer, s.mode⟩

/-- Where a step leads inside of other lists and objects, it leads without them as well. -/
def Step.Mirrors (outer : List Frame) (inside alone : Step) : Prop :=
  ∀ next, inside = .more next → ∃ s', next = s'.within outer ∧ alone = .more s' ∧ s'.IsInner

variable {outer : List Frame}

theorem mirrors_more (hinner : s.IsInner) :
    Step.Mirrors outer (.more (s.within outer)) (.more s) := by
  rintro next ⟨⟩
  exact ⟨s, rfl, rfl, hinner⟩

theorem mirrors_fault {f : Fault} {alone : Step} : Step.Mirrors outer (.fault f) alone := nofun

theorem opens_mirrors {frame : Frame} {mode : Mode}
    (hinner : State.IsInner ⟨frame :: s.frames, mode⟩) :
    Step.Mirrors outer (open_ limit (s.within outer) frame mode) (open_ limit s frame mode) := by
  unfold open_
  by_cases hlt : (s.within outer).frames.length < limit
  · have hlt' : s.frames.length < limit := by
      simp only [State.within, List.length_append] at hlt
      omega
    rw [if_pos hlt, if_pos hlt']
    exact mirrors_more hinner
  · rw [if_neg hlt]
    exact mirrors_fault

theorem beginValue_mirrors :
    Step.Mirrors outer (beginValue limit (s.within outer) c) (beginValue limit s c) := by
  have hmode (mode : Mode) (hinner : State.IsInner ⟨s.frames, mode⟩) :
      Step.Mirrors outer (.more { s.within outer with mode }) (.more { s with mode }) :=
    mirrors_more hinner
  unfold beginValue
  split
  · exact opens_mirrors (List.cons_ne_nil _ _)
  split
  · exact opens_mirrors (List.cons_ne_nil _ _)
  split
  · exact hmode _ trivial
  split
  · exact hmode _ trivial
  split
  · exact hmode _ trivial
  split
  · exact hmode _ trivial
  split
  · exact hmode _ trivial
  split
  · exact hmode _ trivial
  split
  · exact hmode _ trivial
  · exact mirrors_fault

/-- A value that is complete inside of other lists and objects ends there, or goes on as it does without
them. -/
theorem afterValue_within {frames : List Frame} {done : Tree}
    (h : afterValue (frames ++ outer) done c = .more next) :
    frames = [] ∨
      ∃ s', next = s'.within outer ∧ afterValue frames done c = .more s' ∧ s'.IsInner := by
  cases frames with
  | nil => exact .inl rfl
  | cons frame inner =>
    refine .inr ?_
    have hmirrors : Step.Mirrors outer (afterValue (frame :: inner ++ outer) done c)
        (afterValue (frame :: inner) done c) := by
      rw [List.cons_append]
      simp only [afterValue]
      split
      · exact mirrors_more (s := ⟨frame :: inner, .separator done⟩) trivial
      · cases frame with
        | array items =>
          simp only
          split
          · exact mirrors_more (s := ⟨.array (done :: items) :: inner, .value⟩) trivial
          · split
            · exact mirrors_more (s := ⟨inner, .separator _⟩) trivial
            · exact mirrors_fault
        | object members key =>
          simp only
          split
          · exact mirrors_more (s := ⟨.object ((key, done) :: members) [] :: inner, .key⟩)
              (List.cons_ne_nil _ _)
          · split
            · exact mirrors_more (s := ⟨inner, .separator _⟩) trivial
            · exact mirrors_fault
    exact hmirrors next h

theorem endString_within {role : StringRole} {body : List Char}
    (hinner : role = .key → s.frames ≠ []) :
    endString (s.within outer) role body = (endString s role body).within outer ∧
      (endString s role body).IsInner := by
  obtain ⟨frames, mode⟩ := s
  cases role with
  | value => exact ⟨rfl, trivial⟩
  | key =>
    cases frames with
    | nil => exact absurd rfl (hinner rfl)
    | cons frame inner => cases frame <;> exact ⟨rfl, List.cons_ne_nil _ _⟩

/-! ### One step, mode by mode -/

section Modes

variable {frames : List Frame} {mode : Mode}

theorem mirrors_more_mk (hinner : State.IsInner ⟨frames, mode⟩) :
    Step.Mirrors outer (.more ⟨frames ++ outer, mode⟩) (.more ⟨frames, mode⟩) :=
  mirrors_more (s := ⟨frames, mode⟩) hinner

/-! A text that is a key stands inside an object, in each of the modes that read a text. -/

section Texts

variable {role : StringRole} {body : List Char}

theorem isInner_text : State.IsInner ⟨frames, .text role body⟩ ↔ (role = .key → frames ≠ []) := by
  cases role <;> simp [State.IsInner]

theorem isInner_escape :
    State.IsInner ⟨frames, .escape role body⟩ ↔ (role = .key → frames ≠ []) := by
  cases role <;> simp [State.IsInner]

theorem isInner_hexDigits {count : Nat} :
    State.IsInner ⟨frames, .hexDigits count role body⟩ ↔ (role = .key → frames ≠ []) := by
  cases role <;> simp [State.IsInner]

end Texts

theorem step_value_mirrors :
    Step.Mirrors outer (step limit ⟨frames ++ outer, .value⟩ c) (step limit ⟨frames, .value⟩ c) := by
  simp only [step]
  split
  · exact mirrors_more_mk trivial
  · exact beginValue_mirrors (s := ⟨frames, .value⟩)

theorem step_firstItem_mirrors (hframes : frames ≠ []) :
    Step.Mirrors outer (step limit ⟨frames ++ outer, .firstItem⟩ c)
      (step limit ⟨frames, .firstItem⟩ c) := by
  obtain ⟨frame, inner, rfl⟩ := List.exists_cons_of_ne_nil hframes
  simp only [step]
  split
  · exact mirrors_more_mk hframes
  split
  · exact mirrors_more (s := ⟨inner, .separator _⟩) trivial
  · exact beginValue_mirrors (s := ⟨frame :: inner, .firstItem⟩)

theorem step_firstKey_mirrors (hframes : frames ≠ []) :
    Step.Mirrors outer (step limit ⟨frames ++ outer, .firstKey⟩ c)
      (step limit ⟨frames, .firstKey⟩ c) := by
  obtain ⟨frame, inner, rfl⟩ := List.exists_cons_of_ne_nil hframes
  simp only [step]
  split
  · exact mirrors_more_mk hframes
  split
  · exact mirrors_more (s := ⟨inner, .separator _⟩) trivial
  split
  · exact mirrors_more_mk hframes
  · exact mirrors_fault

theorem step_key_mirrors (hframes : frames ≠ []) :
    Step.Mirrors outer (step limit ⟨frames ++ outer, .key⟩ c) (step limit ⟨frames, .key⟩ c) := by
  simp only [step]
  split
  · exact mirrors_more_mk hframes
  split
  · exact mirrors_more_mk hframes
  · exact mirrors_fault

theorem step_colon_mirrors (hframes : frames ≠ []) :
    Step.Mirrors outer (step limit ⟨frames ++ outer, .colon⟩ c)
      (step limit ⟨frames, .colon⟩ c) := by
  simp only [step]
  split
  · exact mirrors_more_mk hframes
  split
  · exact mirrors_more_mk trivial
  · exact mirrors_fault

theorem step_text_mirrors {role : StringRole} {body : List Char}
    (hinner : role = .key → frames ≠ []) :
    Step.Mirrors outer (step limit ⟨frames ++ outer, .text role body⟩ c)
      (step limit ⟨frames, .text role body⟩ c) := by
  obtain ⟨hend, hended⟩ : endString ⟨frames ++ outer, .text role body⟩ role body =
      (endString ⟨frames, .text role body⟩ role body).within outer ∧
        (endString ⟨frames, .text role body⟩ role body).IsInner :=
    endString_within (s := ⟨frames, .text role body⟩) hinner
  simp only [step]
  split
  · rw [hend]
    exact mirrors_more hended
  split
  · exact mirrors_more_mk (isInner_escape.mpr hinner)
  split
  · exact mirrors_fault
  · exact mirrors_more_mk (isInner_text.mpr hinner)

theorem step_escape_mirrors {role : StringRole} {body : List Char}
    (hinner : role = .key → frames ≠ []) :
    Step.Mirrors outer (step limit ⟨frames ++ outer, .escape role body⟩ c)
      (step limit ⟨frames, .escape role body⟩ c) := by
  simp only [step]
  split
  · exact mirrors_more_mk (isInner_hexDigits.mpr hinner)
  split
  · exact mirrors_more_mk (isInner_text.mpr hinner)
  · exact mirrors_fault

theorem step_hexDigits_mirrors {count : Nat} {role : StringRole} {body : List Char}
    (hinner : role = .key → frames ≠ []) :
    Step.Mirrors outer (step limit ⟨frames ++ outer, .hexDigits count role body⟩ c)
      (step limit ⟨frames, .hexDigits count role body⟩ c) := by
  simp only [step]
  split
  · split
    · exact mirrors_more_mk (isInner_text.mpr hinner)
    · exact mirrors_more_mk (isInner_hexDigits.mpr hinner)
  · exact mirrors_fault

theorem step_word_mirrors {name rest : List Char} {want : Char} {result : Tree} :
    Step.Mirrors outer (step limit ⟨frames ++ outer, .word name (want :: rest) result⟩ c)
      (step limit ⟨frames, .word name (want :: rest) result⟩ c) := by
  cases rest with
  | nil =>
    simp only [step]
    split
    · exact mirrors_more_mk trivial
    · exact mirrors_fault
  | cons next rest =>
    simp only [step]
    split
    · exact mirrors_more_mk trivial
    · exact mirrors_fault

/-- Inside of other lists and objects a number goes on as it does without them, or it is complete. -/
theorem step_number_within {phase : NumberPhase} {text : List Char}
    (h : step limit ⟨frames ++ outer, .number phase text⟩ c = .more next) :
    (∃ s', next = s'.within outer ∧ step limit ⟨frames, .number phase text⟩ c = .more s' ∧
        s'.IsInner) ∨
      ∃ t, finish ⟨frames, .number phase text⟩ = .ok t ∧
        step limit ⟨outer, .separator t⟩ c = .more next := by
  simp only [step] at h ⊢
  cases hnext : phase.next? c with
  | some phase' =>
    simp only [hnext] at h ⊢
    obtain rfl := (Step.more.inj h).symm
    exact .inl ⟨⟨frames, .number phase' (c :: text)⟩, rfl, rfl, trivial⟩
  | none =>
    simp only [hnext] at h ⊢
    cases hcomplete : phase.isComplete with
    | false => simp [hcomplete] at h
    | true =>
      simp only [hcomplete, if_true] at h ⊢
      rcases afterValue_within h with rfl | hgoesOn
      · exact .inr ⟨_, by simp [finish, hcomplete], h⟩
      · exact .inl hgoesOn

end Modes

/-- A step inside of other lists and objects is a step without them, or the first one behind a value
that is complete. -/
theorem step_within (hinner : s.IsInner) (h : step limit (s.within outer) c = .more next) :
    (∃ s', next = s'.within outer ∧ step limit s c = .more s' ∧ s'.IsInner) ∨
      ∃ t, finish s = .ok t ∧ step limit ⟨outer, .separator t⟩ c = .more next := by
  obtain ⟨frames, mode⟩ := s
  cases mode with
  | value => exact .inl (step_value_mirrors next h)
  | firstItem => exact .inl (step_firstItem_mirrors hinner next h)
  | firstKey => exact .inl (step_firstKey_mirrors hinner next h)
  | key => exact .inl (step_key_mirrors hinner next h)
  | colon => exact .inl (step_colon_mirrors hinner next h)
  | separator done =>
    rcases afterValue_within h with rfl | hgoesOn
    · exact .inr ⟨done, rfl, h⟩
    · exact .inl hgoesOn
  | text role body => exact .inl (step_text_mirrors (isInner_text.mp hinner) next h)
  | escape role body => exact .inl (step_escape_mirrors (isInner_escape.mp hinner) next h)
  | hexDigits count role body =>
    exact .inl (step_hexDigits_mirrors (isInner_hexDigits.mp hinner) next h)
  | number phase text => exact step_number_within h
  | word name rest result =>
    cases rest with
    | nil =>
      rcases afterValue_within h with rfl | hgoesOn
      · exact .inr ⟨result, rfl, h⟩
      · exact .inl hgoesOn
    | cons want rest => exact .inl (step_word_mirrors next h)

theorem step_ne_complete (hne : s.frames ≠ []) : step limit s c ≠ .complete t := by
  intro h
  have hfinish := finish_of_complete h
  obtain ⟨frames, mode⟩ := s
  cases frames with
  | nil => exact hne rfl
  | cons frame inner => cases mode <;> cases hfinish

/-- What is read inside of other lists and objects begins with a value of its own. -/
theorem exists_value_of_runFrom_within {r : Tree × List Char} (houter : outer ≠ [])
    (hinner : s.IsInner) (h : runFrom limit (s.within outer) cs = .ok r) :
    ∃ text rest t, cs = text ++ rest ∧ runFrom limit s text = .ok (t, []) ∧
      runFrom limit ⟨outer, .separator t⟩ rest = .ok r := by
  have hframes (s : State) : (s.within outer).frames ≠ [] := by
    simp [State.within, houter]
  induction cs generalizing s with
  | nil =>
    obtain ⟨frames, mode⟩ := s
    cases hout : frames ++ outer with
    | nil => exact absurd hout (hframes ⟨frames, mode⟩)
    | cons frame rest =>
      have hfinish : finish (State.within ⟨frames, mode⟩ outer) = .error .cutShort := by
        rw [State.within]
        simp only
        rw [hout]
        rfl
      rw [runFrom, hfinish] at h
      cases h
  | cons c cs ih =>
    rw [runFrom] at h
    cases hstep : step limit (s.within outer) c with
    | fault f => simp [hstep] at h
    | complete done => exact absurd hstep (step_ne_complete (hframes s))
    | more next =>
      rw [hstep] at h
      rcases step_within hinner hstep with ⟨s', rfl, halone, hinner'⟩ | ⟨t, hfinish, hsep⟩
      · obtain ⟨text, rest, t, rfl, hvalue, hrest⟩ := ih hinner' h
        exact ⟨c :: text, rest, t, rfl, by rw [runFrom, halone]; exact hvalue, hrest⟩
      · exact ⟨[], c :: cs, t, rfl, by simp [runFrom, hfinish, Except.map],
          by rw [runFrom, hsep]; exact h⟩

/-! ## Where a value ends -/

theorem stops_of_runFrom_separator {r : Tree × List Char} (houter : outer ≠ [])
    (h : runFrom limit ⟨outer, .separator t⟩ rest = .ok r) : Stops rest := by
  obtain ⟨frame, frames, rfl⟩ := List.exists_cons_of_ne_nil houter
  cases rest with
  | nil => simp [Stops]
  | cons c rest =>
    intro d hd
    obtain rfl : c = d := by simpa using hd
    by_cases hgap : isGap c = true
    · exact .inl hgap
    · refine .inr ?_
      rw [runFrom] at h
      simp only [step, afterValue, hgap] at h
      cases frame with
      | array items =>
        by_cases hcomma : c = ','
        · exact .inl hcomma
        · by_cases hclose : c = ']'
          · exact .inr (.inl hclose)
          · simp [hcomma, hclose] at h
      | object members key =>
        by_cases hcomma : c = ','
        · exact .inl hcomma
        · by_cases hclose : c = '\x7d'
          · exact .inr (.inr hclose)
          · simp [hcomma, hclose] at h

theorem runFrom_separator (t : Tree) (cs : List Char) :
    runFrom limit ⟨[], .separator t⟩ cs = .ok (t, cs) := by
  cases cs <;> rfl

/-- A value that is complete at the end of a text ends where no number goes on. -/
theorem runFrom_of_finish (h : finish s = .ok t) (hrest : Stops rest) :
    runFrom limit s rest = .ok (t, rest) := by
  cases rest with
  | nil => rw [runFrom, h]; rfl
  | cons c rest =>
    have hcomplete : step limit s c = .complete t := by
      obtain ⟨frames, mode⟩ := s
      unfold finish at h
      split at h
      · next done hframes hmode =>
        simp only at hframes hmode
        subst hframes hmode
        obtain rfl := Except.ok.inj h
        rfl
      · next phase text hframes hmode =>
        simp only at hframes hmode
        subst hframes hmode
        have hnone := next?_eq_none (hrest c rfl) phase
        split at h
        · next hcomplete =>
          obtain rfl := Except.ok.inj h
          simp [step, hnone, hcomplete, afterValue]
        · cases h
      · next name result hframes hmode =>
        simp only at hframes hmode
        subst hframes hmode
        obtain rfl := Except.ok.inj h
        rfl
      · cases h
    rw [runFrom, hcomplete]

theorem runFrom_append_stops {text : List Char} (h : runFrom limit s text = .ok (t, []))
    (hrest : Stops rest) : runFrom limit s (text ++ rest) = .ok (t, rest) := by
  induction text generalizing s with
  | nil =>
    refine runFrom_of_finish ?_ hrest
    rw [runFrom] at h
    cases hf : finish s with
    | error e => simp [hf, Except.map] at h
    | ok done =>
      simp only [hf, Except.map, Except.ok.injEq, Prod.mk.injEq] at h
      rw [h.1]
  | cons c text ih =>
    rw [runFrom] at h
    rw [List.cons_append, runFrom]
    cases hstep : step limit s c with
    | more next =>
      rw [hstep] at h
      exact ih h
    | complete done => simp [hstep] at h
    | fault f => simp [hstep] at h

/-- A state that waits for a token skips the blanks in front of it. -/
theorem runFrom_dropWhile_isGap (h : ∀ c, isGap c = true → step limit s c = .more s)
    (cs : List Char) : runFrom limit s (cs.dropWhile isGap) = runFrom limit s cs := by
  have hgaps : ∀ c ∈ cs.takeWhile isGap, step limit s c = .more s :=
    fun c hc => h c (List.all_eq_true.mp List.all_takeWhile c hc)
  have hskip := runFrom_skip hgaps (cs.dropWhile isGap)
  rw [List.takeWhile_append_dropWhile] at hskip
  exact hskip.symm

theorem read_dropWhile_isGap (cs : List Char) : read (cs.dropWhile isGap) = read cs :=
  runFrom_dropWhile_isGap (fun _ hgap => step_gap (.inl rfl) [] hgap) cs

/-- A state that waits for a token goes on with the first character that is no blank. -/
theorem exists_token {r : Tree × List Char}
    (hskip : ∀ c, isGap c = true → step limit s c = .more s)
    (hwaits : finish s = .error .cutShort) (h : runFrom limit s cs = .ok r) :
    ∃ c next, (cs.dropWhile isGap).head? = some c ∧ isGap c = false ∧
      step limit s c = .more next ∧ runFrom limit next (Written.behindMark cs) = .ok r := by
  rw [← runFrom_dropWhile_isGap hskip] at h
  have hhead := List.head?_dropWhile_not isGap cs
  unfold Written.behindMark
  cases hcs : cs.dropWhile isGap with
  | nil =>
    rw [hcs, runFrom, hwaits] at h
    cases h
  | cons c more =>
    rw [hcs] at hhead
    rw [hcs, runFrom] at h
    cases hstep : step limit s c with
    | fault f => simp [hstep] at h
    | complete done =>
      rw [finish_of_complete hstep] at hwaits
      cases hwaits
    | more next =>
      rw [hstep] at h
      exact ⟨c, next, rfl, by simpa using hhead, hstep, h⟩

end FlowScript.Json
