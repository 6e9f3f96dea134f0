import FlowScript.Proofs.Script.Header
import FlowScript.Proofs.Text.Search

/-!
# Scripts of different times

A result is made neutral by replacing the first text that reads like the line of the header with the
time. Name and id of the flow stand in front of that line, so the text can be found in them first;
then the line keeps its time. Here it is told exactly when results of different times are the same.

## Main definitions

- `HidesStamp` — the text of the line with the time stands in the name or the id of the flow

## Main results

- `normalized_script` — what a script with its time made neutral is
- `normalized_script_eq_iff` — when the scripts of two times are the same
- `normalized_eq_iff` — when the results of two times are the same
-/

namespace FlowScript

namespace Script

open Text Compiled

/-- A script by what its header says, in the first three lines behind the opening quotes. -/
def headerLines (name id time behind : List Char) : List Char :=
  tripleQuote ++ '\n' :: ("Flow: ".toList ++ name ++ '\n' :: ("Flow ID: ".toList ++ id ++ '\n' ::
    (time ++ '\n' :: behind)))

theorem headerLines_inj {name name' id id' time time' behind behind' : List Char}
    (hname : '\n' ∉ name) (hname' : '\n' ∉ name') (hid : '\n' ∉ id) (hid' : '\n' ∉ id')
    (htime : '\n' ∉ time) (htime' : '\n' ∉ time')
    (h : headerLines name id time behind = headerLines name' id' time' behind') :
    name = name' ∧ id = id' ∧ time = time' := by
  have hquotes : '\n' ∉ tripleQuote := by decide
  have hfirst : ∀ {name}, '\n' ∉ name → '\n' ∉ "Flow: ".toList ++ name := by
    intro name h
    simpa using h
  have hsecond : ∀ {id}, '\n' ∉ id → '\n' ∉ "Flow ID: ".toList ++ id := by
    intro id h
    simpa using h
  obtain ⟨-, h⟩ := append_sep_inj hquotes hquotes h
  obtain ⟨h₁, h⟩ := append_sep_inj (hfirst hname) (hfirst hname') h
  obtain ⟨h₂, h⟩ := append_sep_inj (hsecond hid) (hsecond hid') h
  obtain ⟨h₃, -⟩ := append_sep_inj htime htime' h
  exact ⟨List.append_cancel_left h₁, List.append_cancel_left h₂, h₃⟩

/-- The first occurrence of a text like the line with the time is in the name, in the id, or that
line. -/
theorem replaceFirst_headerLines {ps : List Char} (hps : '\n' ∉ ps) (by_ name id behind : List Char) :
    replaceFirst ('G' :: ps) by_ (headerLines name id ('G' :: ps) behind) =
      if contains ('G' :: ps) name then
        headerLines (replaceFirst ('G' :: ps) by_ name) id ('G' :: ps) behind
      else if contains ('G' :: ps) id then
        headerLines name (replaceFirst ('G' :: ps) by_ id) ('G' :: ps) behind
      else headerLines name id by_ behind := by
  have hne : 'G' :: ps ≠ [] := List.cons_ne_nil _ _
  have hfeed : '\n' ∉ 'G' :: ps := by simpa using hps
  have hquotes := cutFirst?_eq_none_of_free (show 'G' ∉ tripleQuote by decide) ps
  have hfirst := cutFirst?_append_of_free (show 'G' ∉ "Flow: ".toList by decide) ps name
  have hsecond := cutFirst?_append_of_free (show 'G' ∉ "Flow ID: ".toList by decide) ps id
  have htime := cutFirst?_append_self hne ('\n' :: behind)
  unfold contains replaceFirst
  rw [headerLines, cutFirst?_append_sep hne hfeed, hquotes, cutFirst?_append_sep hne hfeed, hfirst,
    cutFirst?_append_sep hne hfeed, hsecond, htime]
  cases cutFirst? ('G' :: ps) name with
  | some cut => simp [headerLines]
  | none =>
    cases cutFirst? ('G' :: ps) id with
    | some cut => simp [headerLines]
    | none => simp [headerLines]

/-- The line with the time also stands in the name or the id of the flow. -/
def HidesStamp (f : Flow) (stamp : String) : Prop :=
  contains (headerStamp stamp).toList (docText f.name.toList) = true ∨
    contains (headerStamp stamp).toList (docText f.id.toList) = true

instance (f : Flow) (stamp : String) : Decidable (HidesStamp f stamp) :=
  inferInstanceAs (Decidable (_ ∨ _))

theorem newline_not_mem_docText (s : List Char) : '\n' ∉ docText s := by
  intro h
  rw [docText_eq] at h
  rcases mem_escapeDoc h with h | h
  · exact (unbroken_iff.mp (unbroken_remark s)).1 h
  · exact absurd h (by decide)

theorem newline_not_mem_stamp (now : Moment) : '\n' ∉ now.utc.stamp.toList := by
  intro h
  exact absurd (isPlain_of_mem_stamp h).1 (by decide)

theorem headerStamp_toList (stamp : String) :
    (headerStamp stamp).toList = 'G' :: ("enerated: ".toList ++ stamp.toList) := by
  delta headerStamp
  rw [String.toList_append]
  rfl

theorem headerStamp_injective {s t : String}
    (h : (headerStamp s).toList = (headerStamp t).toList) : s = t := by
  rw [headerStamp_toList, headerStamp_toList] at h
  exact String.toList_injective (List.append_cancel_left (List.cons.inj h).2)

/-- The neutral stamp is not the text of a time. -/
theorem stamp_ne_normalStamp (now : Moment) : now.utc.stamp ≠ normalStamp := by
  obtain ⟨front, hstamp, -, hfront⟩ := now.exists_stamp_eq
  intro h
  have hmem : '<' ∈ front ++ ['Z'] := by
    rw [← hstamp, h]
    decide
  rcases List.mem_append.mp hmem with hmem | hmem
  · exact absurd (hfront _ hmem) (by decide)
  · exact absurd hmem (by decide)

theorem newline_not_mem_headerStamp (p : Prop) [Decidable p] (now : Moment) :
    '\n' ∉ (headerStamp (if p then now.utc.stamp else normalStamp)).toList := by
  split
  · rw [headerStamp_toList]
    simpa using newline_not_mem_stamp now
  · decide

theorem stamp_ne_empty (now : Moment) : now.utc.stamp ≠ "" := by
  obtain ⟨front, hstamp, -⟩ := now.exists_stamp_eq
  intro h
  rw [h] at hstamp
  simp at hstamp

theorem toList_normalized {r : Compiled} (h : r.generatedAt ≠ "") :
    r.normalized.script.toList = replaceFirst (headerStamp r.generatedAt).toList
      (headerStamp normalStamp).toList r.script.toList := by
  simp [normalized, h]

/-- What a script is when its time has been made neutral. -/
theorem normalized_script {f : Flow} {body : String}
    (hbody : ∀ stamp, (f.compileAt stamp).script.toList = tripleQuote ++
      (headerText docText f stamp ++ (tripleQuote ++ '\n' :: '\n' :: body.toList))) (now : Moment) :
    ∃ name id, '\n' ∉ name ∧ '\n' ∉ id ∧
      (f.compile (.ok now)).1.normalized.script.toList =
        headerLines name id
          (headerStamp (if HidesStamp f now.utc.stamp then now.utc.stamp else normalStamp)).toList
          (tripleQuote ++ '\n' :: '\n' :: body.toList) ∧
      (¬ HidesStamp f now.utc.stamp → name = docText f.name.toList ∧ id = docText f.id.toList) := by
  have hname := newline_not_mem_docText f.name.toList
  have hid := newline_not_mem_docText f.id.toList
  have hneutral : '\n' ∉ (headerStamp normalStamp).toList := by decide
  have hscript : (f.compile (.ok now)).1.script.toList = headerLines (docText f.name.toList)
      (docText f.id.toList) (headerStamp now.utc.stamp).toList
      (tripleQuote ++ '\n' :: '\n' :: body.toList) := by
    have hlabel : "Generated: ".toList = 'G' :: "enerated: ".toList := rfl
    rw [headerStamp_toList]
    refine (hbody _).trans ?_
    simp only [headerLines, headerText, headerLine, hlabel, List.append_assoc, List.cons_append,
      List.nil_append]
  have hnormal := toList_normalized (r := (f.compile (.ok now)).1) (stamp_ne_empty now)
  have hps : '\n' ∉ "enerated: ".toList ++ now.utc.stamp.toList := by
    simpa using newline_not_mem_stamp now
  have htime : (f.compile (.ok now)).1.generatedAt = now.utc.stamp := rfl
  rw [hscript, htime, headerStamp_toList, replaceFirst_headerLines hps, ← headerStamp_toList]
    at hnormal
  have hreplaced : ∀ {text}, '\n' ∉ text → '\n' ∉ replaceFirst (headerStamp now.utc.stamp).toList
      (headerStamp normalStamp).toList text := by
    intro text htext hmem
    rcases mem_replaceFirst hmem with h | h
    · exact htext h
    · exact hneutral h
  rw [hnormal]
  split
  · next h =>
    have hhides : HidesStamp f now.utc.stamp := Or.inl h
    exact ⟨_, _, hreplaced hname, hid, by rw [if_pos hhides], fun hnot => absurd hhides hnot⟩
  split
  · next h =>
    have hhides : HidesStamp f now.utc.stamp := Or.inr h
    exact ⟨_, _, hname, hreplaced hid, by rw [if_pos hhides], fun hnot => absurd hhides hnot⟩
  · next hfirst hsecond =>
    have hnot : ¬ HidesStamp f now.utc.stamp := by simp [HidesStamp, hfirst, hsecond]
    exact ⟨_, _, hname, hid, by rw [if_neg hnot], fun _ => ⟨rfl, rfl⟩⟩

/-- The scripts of two times are the same exactly when the times read the same or stand nowhere else
in the header. -/
theorem normalized_script_eq_iff (f : Flow) (t₁ t₂ : Moment) :
    (f.compile (.ok t₁)).1.normalized.script = (f.compile (.ok t₂)).1.normalized.script ↔
      t₁.utc.stamp = t₂.utc.stamp ∨
        ¬ HidesStamp f t₁.utc.stamp ∧ ¬ HidesStamp f t₂.utc.stamp := by
  obtain ⟨body, hbody⟩ := exists_script_header f
  obtain ⟨name₁, id₁, hname₁, hid₁, hscript₁, hfree₁⟩ := normalized_script hbody t₁
  obtain ⟨name₂, id₂, hname₂, hid₂, hscript₂, hfree₂⟩ := normalized_script hbody t₂
  constructor
  · intro h
    rw [h, hscript₂] at hscript₁
    obtain ⟨-, -, htimes⟩ := headerLines_inj hname₂ hname₁ hid₂ hid₁ (newline_not_mem_headerStamp _ _)
      (newline_not_mem_headerStamp _ _) hscript₁
    have hshown := headerStamp_injective htimes
    by_cases h₁ : HidesStamp f t₁.utc.stamp
    · by_cases h₂ : HidesStamp f t₂.utc.stamp
      · rw [if_pos h₁, if_pos h₂] at hshown
        exact Or.inl hshown.symm
      · rw [if_pos h₁, if_neg h₂] at hshown
        exact absurd hshown.symm (stamp_ne_normalStamp t₁)
    · by_cases h₂ : HidesStamp f t₂.utc.stamp
      · rw [if_neg h₁, if_pos h₂] at hshown
        exact absurd hshown (stamp_ne_normalStamp t₂)
      · exact Or.inr ⟨h₁, h₂⟩
  · intro h
    apply String.toList_injective
    rcases h with h | ⟨h₁, h₂⟩
    · have hsame : f.compile (.ok t₁) = f.compile (.ok t₂) :=
        congrArg (fun stamp => (f.compileAt stamp, none)) h
      rw [hsame]
    · obtain ⟨rfl, rfl⟩ := hfree₁ h₁
      obtain ⟨rfl, rfl⟩ := hfree₂ h₂
      rw [hscript₁, hscript₂, if_neg h₁, if_neg h₂]

end Script

open Script Compiled

/-- Results of different times are the same when they have been made neutral, but for the script of a
flow whose name or id holds the line with one of the times. -/
theorem normalized_eq_iff (f : Flow) (t₁ t₂ : Moment) :
    (f.compile (.ok t₁)).1.normalized.imports = (f.compile (.ok t₂)).1.normalized.imports ∧
    (f.compile (.ok t₁)).1.normalized.order = (f.compile (.ok t₂)).1.normalized.order ∧
    (f.compile (.ok t₁)).1.normalized.diagnostics =
      (f.compile (.ok t₂)).1.normalized.diagnostics ∧
    (f.compile (.ok t₁)).1.normalized.generatedAt =
      (f.compile (.ok t₂)).1.normalized.generatedAt ∧
    ((f.compile (.ok t₁)).1.normalized.script = (f.compile (.ok t₂)).1.normalized.script ↔
      t₁.utc.stamp = t₂.utc.stamp ∨
        ¬ HidesStamp f t₁.utc.stamp ∧ ¬ HidesStamp f t₂.utc.stamp) := by
  have himports : ∀ t : Moment, (f.compile (.ok t)).1.normalized.imports =
      (Plan.ofFlow f).collected.imports := fun _ => rfl
  have horder : ∀ t : Moment, (f.compile (.ok t)).1.normalized.order =
      (Plan.ofFlow f).nodes.map (·.node.id) := fun _ => rfl
  have hnotes : ∀ t : Moment, (f.compile (.ok t)).1.normalized.diagnostics =
      (Plan.ofFlow f).ordering ++ (Plan.ofFlow f).collected.diagnostics
        ++ (Plan.ofFlow f).nodes.flatMap (inputNotes f (Plan.ofFlow f).collected) := fun _ => rfl
  have htime : ∀ t : Moment, (f.compile (.ok t)).1.normalized.generatedAt = normalStamp :=
    fun _ => rfl
  exact ⟨by rw [himports, himports], by rw [horder, horder], by rw [hnotes, hnotes],
    by rw [htime, htime], normalized_script_eq_iff f t₁ t₂⟩

/-- A flow whose name is the line with a time. -/
def stampedFlow : Flow :=
  { name := "Generated: 2024-01-02T03:04:05Z" }

/-- Compiled at that time, its script still tells the time. -/
theorem stampedFlow_tells_time :
    ¬ ∀ (f : Flow) (t₁ t₂ : Moment),
      (f.compile (.ok t₁)).1.normalized.script = (f.compile (.ok t₂)).1.normalized.script := by
  intro h
  have hstamps : (Moment.utc ⟨1704164645, 0, 0⟩).stamp ≠ (Moment.utc ⟨0, 0, 0⟩).stamp := by
    decide +kernel
  have hhides : HidesStamp stampedFlow (Moment.utc ⟨1704164645, 0, 0⟩).stamp := by
    decide +kernel
  rcases (normalized_script_eq_iff _ _ _).mp (h stampedFlow ⟨1704164645, 0, 0⟩ ⟨0, 0, 0⟩) with
    hsame | ⟨hfree, -⟩
  · exact hstamps hsame
  · exact hfree hhides

end FlowScript
