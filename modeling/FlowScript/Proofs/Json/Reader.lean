import FlowScript.Proofs.Json.Trees
import Mathlib.Data.List.Basic

/-!
# Reading documents

The reader takes a written document for what it is, whatever blanks stand between its tokens, and
what it accepts is well formed and not nested beyond the limit.

## Main results

- `readBack` — the reader takes a spaced document for its tree, wherever it stands
- `parseWithin_spaced` — a document is read back within every limit that it keeps
- `fits_of_parseWithin` — the reader accepts well-formed documents within the limit only
- `toOption_parseWithin_compact` — a compact document is read exactly within the limits that it keeps
-/

namespace FlowScript.Json

open Text

variable {limit : Nat}

/-! ## Running the reader -/

theorem runFrom_more {s s' : State} {c : Char} (h : step limit s c = .more s') (cs : List Char) :
    runFrom limit s (c :: cs) = runFrom limit s' cs := by
  rw [runFrom, h]

/-- Characters that leave the state as it is. -/
theorem runFrom_skip {s : State} {gaps : List Char} (h : ∀ c ∈ gaps, step limit s c = .more s)
    (cs : List Char) : runFrom limit s (gaps ++ cs) = runFrom limit s cs := by
  induction gaps with
  | nil => rfl
  | cons c gaps ih =>
    rw [List.cons_append, runFrom_more (h c List.mem_cons_self),
      ih (fun d hd => h d (List.mem_cons_of_mem c hd))]

/-- A text at which a number ends. -/
def Stops (cs : List Char) : Prop :=
  ∀ c ∈ cs.head?, isGap c = true ∨ c = ',' ∨ c = ']' ∨ c = '\x7d'

theorem stops_gaps {gaps : List Char} (h : ∀ c ∈ gaps, isGap c = true) {cs : List Char}
    (hcs : Stops cs) : Stops (gaps ++ cs) := by
  cases gaps with
  | nil => exact hcs
  | cons c gaps =>
    intro d hd
    obtain rfl : c = d := by simpa using hd
    exact Or.inl (h c List.mem_cons_self)

theorem stops_cons {c : Char} (h : c = ',' ∨ c = ']' ∨ c = '\x7d') (cs : List Char) :
    Stops (c :: cs) := by
  intro d hd
  obtain rfl : c = d := by simpa using hd
  exact Or.inr h

theorem next?_eq_none {c : Char} (h : isGap c = true ∨ c = ',' ∨ c = ']' ∨ c = '\x7d')
    (phase : NumberPhase) : phase.next? c = none := by
  have hc : c = ' ' ∨ c = '\t' ∨ c = '\r' ∨ c = '\n' ∨ c = ',' ∨ c = ']' ∨ c = '\x7d' := by
    simpa [isGap, or_assoc] using h
  rcases hc with rfl | rfl | rfl | rfl | rfl | rfl | rfl <;> cases phase <;> rfl

/-- The characters of a number. -/
theorem runFrom_number {phase last : NumberPhase} {text : List Char} (h : phase.run text = some last)
    (frames : List Frame) (acc cs : List Char) :
    runFrom limit ⟨frames, .number phase acc⟩ (text ++ cs) =
      runFrom limit ⟨frames, .number last (text.reverse ++ acc)⟩ cs := by
  induction text generalizing phase acc with
  | nil =>
    obtain rfl := Option.some.inj h
    rfl
  | cons c text ih =>
    rw [NumberPhase.run] at h
    cases hn : phase.next? c with
    | none => simp [hn] at h
    | some next =>
      rw [hn] at h
      have hstep : step limit ⟨frames, .number phase acc⟩ c = .more ⟨frames, .number next (c :: acc)⟩ := by
        simp [step, hn]
      rw [List.cons_append, runFrom_more hstep, ih h]
      simp

/-- A number that may end does so where no number goes on. -/
theorem runFrom_endNumber {last : NumberPhase} (hlast : last.isComplete = true)
    (frames : List Frame) (text : List Char) {cs : List Char} (hcs : Stops cs) :
    runFrom limit ⟨frames, .number last text⟩ cs =
      runFrom limit ⟨frames, .separator (.number text.reverse)⟩ cs := by
  cases cs with
  | nil =>
    cases frames with
    | nil => simp [runFrom, finish, hlast]
    | cons frame frames => rfl
  | cons c cs =>
    have hnone := next?_eq_none (hcs c rfl) last
    have hstep : step limit ⟨frames, .number last text⟩ c =
        step limit ⟨frames, .separator (.number text.reverse)⟩ c := by
      simp [step, hnone, hlast]
    rw [runFrom, runFrom, hstep]

theorem endString_mode (frames : List Frame) (mode mode' : Mode) (role : StringRole)
    (body : List Char) : endString ⟨frames, mode⟩ role body = endString ⟨frames, mode'⟩ role body := by
  cases role with
  | value => rfl
  | key =>
    cases frames with
    | nil => rfl
    | cons frame frames => cases frame <;> rfl

/-- The body of a string literal and its closing quote. -/
theorem runFrom_body {body : List Char} (h : IsBody body) (frames : List Frame) (role : StringRole)
    (acc cs : List Char) :
    runFrom limit ⟨frames, .text role acc⟩ (body ++ '"' :: cs) =
      runFrom limit (endString ⟨frames, .value⟩ role (body.reverse ++ acc)) cs := by
  induction h generalizing acc with
  | nil =>
    have hstep : step limit ⟨frames, .text role acc⟩ '"' = .more (endString ⟨frames, .value⟩ role acc) := by
      rw [endString_mode frames .value (.text role acc)]
      rfl
    exact runFrom_more hstep cs
  | @char c rest hquote hslash hcontrol _ ih =>
    have hstep : step limit ⟨frames, .text role acc⟩ c = .more ⟨frames, .text role (c :: acc)⟩ := by
      simp [step, hquote, hslash, hcontrol]
    rw [List.cons_append, runFrom_more hstep, ih]
    simp
  | @short c rest hc _ ih =>
    have hfirst : step limit ⟨frames, .text role acc⟩ '\\' = .more ⟨frames, .escape role ('\\' :: acc)⟩ := rfl
    have hu := ne_u_of_mem_shortEscapes hc
    have hmem : "bfnrt\\/\"".toList.contains c = true := List.elem_eq_true_of_mem hc
    have hsecond : step limit ⟨frames, .escape role ('\\' :: acc)⟩ c =
        .more ⟨frames, .text role (c :: '\\' :: acc)⟩ := by
      simp only [step, hmem, if_true]
      simp [hu]
    rw [List.cons_append, List.cons_append, runFrom_more hfirst, runFrom_more hsecond, ih]
    simp
  | @unit a b c d n rest hn _ ih =>
    obtain ⟨ha, hb, hc, hd⟩ := hex4?_eq_some hn
    have hfirst : step limit ⟨frames, .text role acc⟩ '\\' = .more ⟨frames, .escape role ('\\' :: acc)⟩ := rfl
    have hsecond : ∀ acc, step limit ⟨frames, .escape role acc⟩ 'u' =
        .more ⟨frames, .hexDigits 4 role ('u' :: acc)⟩ := fun _ => rfl
    have hdigit : ∀ {e : Char} (k : Nat) (acc : List Char), (hexValue? e).isSome = true →
        step limit ⟨frames, .hexDigits (k + 2) role acc⟩ e =
          .more ⟨frames, .hexDigits (k + 1) role (e :: acc)⟩ := by
      intro e k acc he
      simp [step, he]
    have hlast : ∀ {e : Char} (acc : List Char), (hexValue? e).isSome = true →
        step limit ⟨frames, .hexDigits 1 role acc⟩ e = .more ⟨frames, .text role (e :: acc)⟩ := by
      intro e acc he
      simp [step, he]
    simp only [List.cons_append]
    rw [runFrom_more hfirst, runFrom_more (hsecond _), runFrom_more (hdigit 2 _ ha),
      runFrom_more (hdigit 1 _ hb), runFrom_more (hdigit 0 _ hc), runFrom_more (hlast _ hd), ih]
    simp

/-! ## Reading a document back -/

/-- A value may begin here. -/
def Begins (mode : Mode) : Prop :=
  mode = .value ∨ mode = .firstItem

theorem step_begins {mode : Mode} (h : Begins mode) (frames : List Frame) {c : Char}
    (hgap : isGap c = false) (hclose : c ≠ ']') :
    step limit ⟨frames, mode⟩ c = beginValue limit ⟨frames, mode⟩ c := by
  rcases h with rfl | rfl
  · simp [step, hgap]
  · simp [step, hgap, hclose]

theorem step_gap {mode : Mode} (h : Begins mode) (frames : List Frame) {c : Char}
    (hgap : isGap c = true) : step limit ⟨frames, mode⟩ c = .more ⟨frames, mode⟩ := by
  rcases h with rfl | rfl <;> simp [step, hgap]

theorem step_separator_gap (frame : Frame) (frames : List Frame) (done : Tree) {c : Char}
    (hgap : isGap c = true) :
    step limit ⟨frame :: frames, .separator done⟩ c = .more ⟨frame :: frames, .separator done⟩ := by
  simp [step, afterValue, hgap]

/-- The reader takes a document for its tree wherever it stands. -/
def ReadBack (limit : Nat) (markup : Markup) (spacing : Spacing) (t : Tree) : Prop :=
  ∀ (depth : Nat) (mode : Mode) (frames : List Frame) (cs : List Char), Begins mode →
    frames.length + t.depth ≤ limit → Stops cs →
    runFrom limit ⟨frames, mode⟩ (t.spaced markup spacing depth ++ cs) =
      runFrom limit ⟨frames, .separator (t.respelled markup)⟩ cs

variable {markup : Markup} {spacing : Spacing}

/-- The items of a list, up to its closing bracket. -/
theorem runFrom_items {items : List Tree} (hne : items ≠ [])
    (h : ∀ t ∈ items, ReadBack limit markup spacing t) (frames : List Frame)
    (hdepth : ∀ t ∈ items, frames.length + 1 + t.depth ≤ limit) (depth level : Nat)
    {mode : Mode} (hmode : Begins mode) (acc : List Tree) (cs : List Char) :
    runFrom limit ⟨.array acc :: frames, mode⟩
        (spacedItems markup spacing depth items ++ (spacing.line level ++ ']' :: cs)) =
      runFrom limit ⟨frames, .separator (.array (acc.reverse ++ items.map (Tree.respelled markup)))⟩ cs := by
  induction items generalizing acc mode with
  | nil => exact absurd rfl hne
  | cons item rest ih =>
    have hskip : ∀ {mode}, Begins mode → ∀ cs, runFrom limit ⟨.array acc :: frames, mode⟩
        (spacing.line depth ++ cs) = runFrom limit ⟨.array acc :: frames, mode⟩ cs := fun hm cs =>
      runFrom_skip (fun c hc => step_gap hm _ (spacing.line_isGap depth c hc)) cs
    have hitem := fun cs (hcs : Stops cs) => h item List.mem_cons_self depth mode (.array acc :: frames)
      cs hmode (hdepth item List.mem_cons_self) hcs
    cases rest with
    | nil =>
      have hclose : step limit ⟨.array acc :: frames, .separator (item.respelled markup)⟩ ']' =
          .more ⟨frames, .separator (.array (item.respelled markup :: acc).reverse)⟩ := rfl
      rw [spacedItems, List.append_assoc, hskip hmode,
        hitem _ (stops_gaps (spacing.line_isGap level) (stops_cons (by simp) cs)),
        runFrom_skip (fun c hc => step_separator_gap _ _ _ (spacing.line_isGap level c hc)),
        runFrom_more hclose]
      simp
    | cons next rest =>
      have hcomma : step limit ⟨.array acc :: frames, .separator (item.respelled markup)⟩ ',' =
          .more ⟨.array (item.respelled markup :: acc) :: frames, .value⟩ := rfl
      have hrest := ih (by simp) (fun t ht => h t (List.mem_cons_of_mem item ht))
        (fun t ht => hdepth t (List.mem_cons_of_mem item ht)) (Or.inl rfl)
        (item.respelled markup :: acc)
      have htext : spacedItems markup spacing depth (item :: next :: rest)
          ++ (spacing.line level ++ ']' :: cs) =
          spacing.line depth ++ (item.spaced markup spacing depth ++ ',' ::
            (spacedItems markup spacing depth (next :: rest) ++ (spacing.line level ++ ']' :: cs))) := by
        rw [spacedItems]
        · simp
        · simp
      rw [htext, hskip hmode, hitem _ (stops_cons (by simp) _), runFrom_more hcomma, hrest]
      simp

/-- A key may begin here. -/
def BeginsKey (mode : Mode) : Prop :=
  mode = .key ∨ mode = .firstKey

/-- From the line before a key to its value. -/
theorem runFrom_key {key : List Char} (hkey : IsBody key) {mode : Mode} (hmode : BeginsKey mode)
    (frames : List Frame) (acc : List (List Char × Tree)) (before : List Char) (depth : Nat)
    (cs : List Char) :
    runFrom limit ⟨.object acc before :: frames, mode⟩
        (spacing.line depth ++ '"' :: (respell markup key ++ '"' :: ':' :: (spacing.colon ++ cs))) =
      runFrom limit ⟨.object acc (respell markup key) :: frames, .value⟩ cs := by
  have hskip : ∀ c ∈ spacing.line depth,
      step limit ⟨.object acc before :: frames, mode⟩ c = .more ⟨.object acc before :: frames, mode⟩ := by
    intro c hc
    have hgap := spacing.line_isGap depth c hc
    rcases hmode with rfl | rfl <;> simp [step, hgap]
  have hquote : step limit ⟨.object acc before :: frames, mode⟩ '"' =
      .more ⟨.object acc before :: frames, .text .key []⟩ := by
    rcases hmode with rfl | rfl <;> rfl
  have hend : endString ⟨.object acc before :: frames, .value⟩ .key
      ((respell markup key).reverse ++ []) = ⟨.object acc (respell markup key) :: frames, .colon⟩ := by
    simp [endString]
  have hcolon : step limit ⟨.object acc (respell markup key) :: frames, .colon⟩ ':' =
      .more ⟨.object acc (respell markup key) :: frames, .value⟩ := rfl
  rw [runFrom_skip hskip, runFrom_more hquote, runFrom_body (hkey.respell markup), hend,
    runFrom_more hcolon,
    runFrom_skip (fun c hc => step_gap (Or.inl rfl) _ (spacing.colon_isGap c hc))]

/-- The members of an object, up to its closing bracket. -/
theorem runFrom_members {members : List (List Char × Tree)} (hne : members ≠ [])
    (hkeys : ∀ m ∈ members, IsBody m.1) (h : ∀ m ∈ members, ReadBack limit markup spacing m.2)
    (frames : List Frame) (hdepth : ∀ m ∈ members, frames.length + 1 + m.2.depth ≤ limit)
    (depth level : Nat) {mode : Mode} (hmode : BeginsKey mode) (acc : List (List Char × Tree))
    (before cs : List Char) :
    runFrom limit ⟨.object acc before :: frames, mode⟩
        (spacedMembers markup spacing depth members ++ (spacing.line level ++ '\x7d' :: cs)) =
      runFrom limit ⟨frames, .separator (.object (acc.reverse
        ++ members.map (fun m => (respell markup m.1, m.2.respelled markup))))⟩ cs := by
  induction members generalizing acc before mode with
  | nil => exact absurd rfl hne
  | cons member rest ih =>
    obtain ⟨key, value⟩ := member
    have hbody := hkeys (key, value) List.mem_cons_self
    have hvalue := fun cs (hcs : Stops cs) => h (key, value) List.mem_cons_self depth .value
      (.object acc (respell markup key) :: frames) cs (Or.inl rfl)
      (hdepth (key, value) List.mem_cons_self) hcs
    cases rest with
    | nil =>
      have hclose : step limit ⟨.object acc (respell markup key) :: frames,
          .separator (value.respelled markup)⟩ '\x7d' = .more ⟨frames, .separator
            (.object ((respell markup key, value.respelled markup) :: acc).reverse)⟩ := rfl
      have htext : spacedMembers markup spacing depth [(key, value)]
          ++ (spacing.line level ++ '\x7d' :: cs) = spacing.line depth ++ '"' :: (respell markup key
            ++ '"' :: ':' :: (spacing.colon ++ (value.spaced markup spacing depth
              ++ (spacing.line level ++ '\x7d' :: cs)))) := by
        rw [spacedMembers]
        simp
      rw [htext, runFrom_key hbody hmode,
        hvalue _ (stops_gaps (spacing.line_isGap level) (stops_cons (by simp) cs)),
        runFrom_skip (fun c hc => step_separator_gap _ _ _ (spacing.line_isGap level c hc)),
        runFrom_more hclose]
      simp
    | cons next rest =>
      have hcomma : step limit ⟨.object acc (respell markup key) :: frames,
          .separator (value.respelled markup)⟩ ',' = .more ⟨.object
            ((respell markup key, value.respelled markup) :: acc) [] :: frames, .key⟩ := rfl
      have hrest := ih (by simp) (fun t ht => hkeys t (List.mem_cons_of_mem _ ht))
        (fun t ht => h t (List.mem_cons_of_mem _ ht))
        (fun t ht => hdepth t (List.mem_cons_of_mem _ ht)) (Or.inl rfl)
        ((respell markup key, value.respelled markup) :: acc) []
      have htext : spacedMembers markup spacing depth ((key, value) :: next :: rest)
          ++ (spacing.line level ++ '\x7d' :: cs) = spacing.line depth ++ '"' :: (respell markup key
            ++ '"' :: ':' :: (spacing.colon ++ (value.spaced markup spacing depth ++ ',' ::
              (spacedMembers markup spacing depth (next :: rest)
                ++ (spacing.line level ++ '\x7d' :: cs))))) := by
        rw [spacedMembers]
        · simp
        · simp
      rw [htext, runFrom_key hbody hmode, hvalue _ (stops_cons (by simp) _), runFrom_more hcomma, hrest]
      simp

/-- A character that starts a number starts nothing else. -/
theorem beginValue_number {c : Char} {phase : NumberPhase} (h : NumberPhase.start? c = some phase) :
    isGap c = false ∧ c ≠ ']' ∧
      ∀ s : State, beginValue limit s c = .more { s with mode := .number phase [c] } := by
  unfold NumberPhase.start? at h
  split at h
  · next hc =>
    obtain rfl := eq_of_beq hc
    obtain rfl := Option.some.inj h
    exact ⟨rfl, by decide, fun _ => rfl⟩
  · split at h
    · next hc =>
      obtain rfl := eq_of_beq hc
      obtain rfl := Option.some.inj h
      exact ⟨rfl, by decide, fun _ => rfl⟩
    · next hminus hzero =>
      split at h
      · next hc =>
        obtain rfl := Option.some.inj h
        have hne : ∀ d : Char, isDigit d = false → c ≠ d := by
          rintro d hd rfl
          rw [hc] at hd
          cases hd
        refine ⟨?_, hne ']' (by decide), ?_⟩
        · simp [isGap, hne ' ' (by decide), hne '\t' (by decide), hne '\r' (by decide),
            hne '\n' (by decide)]
        · intro s
          simp only [beq_iff_eq] at hminus hzero
          simp [beginValue, hne '\x7b' (by decide), hne '[' (by decide), hne '"' (by decide), hminus,
            hzero, hc]
      · cases h

theorem readBack_number {text : List Char} (h : IsNumber text) :
    ReadBack limit markup spacing (.number text) := by
  obtain ⟨c, rest, phase, last, rfl, hstart, hrun, hlast⟩ := h
  intro depth mode frames cs hmode hdepth hcs
  obtain ⟨hgap, hclose, hbegin⟩ := beginValue_number hstart
  have hstep := (step_begins hmode frames hgap hclose).trans (hbegin ⟨frames, mode⟩)
  have htext : (Tree.number (c :: rest)).spaced markup spacing depth ++ cs = c :: (rest ++ cs) := rfl
  rw [htext, runFrom_more hstep, runFrom_number hrun, runFrom_endNumber hlast frames _ hcs]
  simp [Tree.respelled]

theorem readBack_string {body : List Char} (h : IsBody body) :
    ReadBack limit markup spacing (.string body) := by
  intro depth mode frames cs hmode hdepth hcs
  have hquote : step limit ⟨frames, mode⟩ '"' = .more ⟨frames, .text .value []⟩ := by
    rcases hmode with rfl | rfl <;> rfl
  have htext : (Tree.string body).spaced markup spacing depth ++ cs =
      '"' :: (respell markup body ++ '"' :: cs) := by
    simp [Tree.spaced, Tree.compact]
  rw [htext, runFrom_more hquote, runFrom_body (h.respell markup)]
  simp [endString, Tree.respelled]

/-- A list opens where a value may begin and the limit leaves room. -/
theorem step_openArray {mode : Mode} (h : Begins mode) {frames : List Frame}
    (hlt : frames.length < limit) :
    step limit ⟨frames, mode⟩ '[' = .more ⟨.array [] :: frames, .firstItem⟩ := by
  rcases h with rfl | rfl <;> simp [step, isGap, beginValue, open_, hlt]

/-- An object opens where a value may begin and the limit leaves room. -/
theorem step_openObject {mode : Mode} (h : Begins mode) {frames : List Frame}
    (hlt : frames.length < limit) :
    step limit ⟨frames, mode⟩ '\x7b' = .more ⟨.object [] [] :: frames, .firstKey⟩ := by
  rcases h with rfl | rfl <;> simp [step, isGap, beginValue, open_, hlt]

theorem readBack_array {items : List Tree} (h : ∀ t ∈ items, ReadBack limit markup spacing t) :
    ReadBack limit markup spacing (.array items) := by
  intro depth mode frames cs hmode hdepth hcs
  rw [Tree.depth] at hdepth
  have hlt : frames.length < limit := by omega
  have hopen := step_openArray hmode hlt
  cases items with
  | nil =>
    have hclose : step limit ⟨.array [] :: frames, .firstItem⟩ ']' =
        .more ⟨frames, .separator (.array [])⟩ := rfl
    have htext : (Tree.array []).spaced markup spacing depth ++ cs = '[' :: ']' :: cs := by
      simp [Tree.spaced]
    rw [htext, runFrom_more hopen, runFrom_more hclose]
    rfl
  | cons item rest =>
    have htext : (Tree.array (item :: rest)).spaced markup spacing depth ++ cs =
        '[' :: (spacedItems markup spacing (depth + 1) (item :: rest)
          ++ (spacing.line depth ++ ']' :: cs)) := by
      simp [Tree.spaced]
    have hinner : ∀ t ∈ item :: rest, frames.length + 1 + t.depth ≤ limit := by
      intro t ht
      have := depth_le_itemsDepth ht
      omega
    rw [htext, runFrom_more hopen, runFrom_items (by simp) h frames hinner _ _ (Or.inr rfl),
      Tree.respelled, respelledItems_eq_map]
    rfl

theorem readBack_object {members : List (List Char × Tree)} (hkeys : ∀ m ∈ members, IsBody m.1)
    (h : ∀ m ∈ members, ReadBack limit markup spacing m.2) :
    ReadBack limit markup spacing (.object members) := by
  intro depth mode frames cs hmode hdepth hcs
  rw [Tree.depth] at hdepth
  have hlt : frames.length < limit := by omega
  have hopen := step_openObject hmode hlt
  cases members with
  | nil =>
    have hclose : step limit ⟨.object [] [] :: frames, .firstKey⟩ '\x7d' =
        .more ⟨frames, .separator (.object [])⟩ := rfl
    have htext : (Tree.object []).spaced markup spacing depth ++ cs = '\x7b' :: '\x7d' :: cs := by
      simp [Tree.spaced]
    rw [htext, runFrom_more hopen, runFrom_more hclose]
    rfl
  | cons member rest =>
    have htext : (Tree.object (member :: rest)).spaced markup spacing depth ++ cs =
        '\x7b' :: (spacedMembers markup spacing (depth + 1) (member :: rest)
          ++ (spacing.line depth ++ '\x7d' :: cs)) := by
      simp [Tree.spaced]
    have hinner : ∀ m ∈ member :: rest, frames.length + 1 + m.2.depth ≤ limit := by
      intro m hm
      have := depth_le_membersDepth hm
      omega
    rw [htext, runFrom_more hopen,
      runFrom_members (by simp) hkeys h frames hinner _ _ (Or.inr rfl), Tree.respelled,
      respelledMembers_eq_map]
    rfl

/-- The reader takes a well-formed document for its tree, whatever blanks stand between the
tokens. -/
theorem readBack {t : Tree} (h : t.WellFormed) (markup : Markup) (spacing : Spacing) :
    ReadBack limit markup spacing t := by
  induction h with
  | null =>
    intro depth mode frames cs hmode hdepth hcs
    rcases hmode with rfl | rfl <;> rfl
  | bool b =>
    intro depth mode frames cs hmode hdepth hcs
    rcases hmode with rfl | rfl <;> cases b <;> rfl
  | number h => exact readBack_number h
  | string h => exact readBack_string h
  | array _ ih => exact readBack_array ih
  | object hkeys _ ih => exact readBack_object hkeys ih

/-- A document with blanks behind it is read back within every limit that it keeps. -/
theorem parseWithin_spaced {t : Tree} (h : t.WellFormed) (hdepth : t.depth ≤ limit)
    (markup : Markup) (spacing : Spacing) (depth : Nat) {gaps : List Char}
    (hgaps : ∀ c ∈ gaps, isGap c = true) :
    parseWithin limit (t.spaced markup spacing depth ++ gaps) = .ok (t.respelled markup) := by
  have hstops : Stops (gaps ++ []) := stops_gaps hgaps (by simp [Stops])
  rw [List.append_nil] at hstops
  have hrun := readBack h markup spacing depth .value [] gaps (Or.inl rfl) (by simpa using hdepth) hstops
  have hdrop : (gaps ++ []).dropWhile isGap = [] := List.dropWhile_append_of_pos hgaps
  rw [List.append_nil] at hdrop
  have hread : readWithin limit (t.spaced markup spacing depth ++ gaps) =
      .ok (t.respelled markup, gaps) := by
    rw [readWithin, hrun]
    cases gaps with
    | nil => rfl
    | cons c gaps => rfl
  rw [parseWithin, hread]
  simp [hdrop]

theorem parse_spaced {t : Tree} (h : t.WellFormed) (hdepth : t.depth ≤ maxDepth) (markup : Markup)
    (spacing : Spacing) (depth : Nat) {gaps : List Char} (hgaps : ∀ c ∈ gaps, isGap c = true) :
    parse (t.spaced markup spacing depth ++ gaps) = .ok (t.respelled markup) :=
  parseWithin_spaced h hdepth markup spacing depth hgaps

theorem parse_indented {t : Tree} (h : t.WellFormed) (hdepth : t.depth ≤ maxDepth)
    (markup : Markup) (depth : Nat) {gaps : List Char} (hgaps : ∀ c ∈ gaps, isGap c = true) :
    parse (t.indented markup depth ++ gaps) = .ok (t.respelled markup) := by
  rw [← spaced_lines t]
  exact parse_spaced h hdepth markup .lines depth hgaps

theorem parseWithin_compact {t : Tree} (h : t.WellFormed) (hdepth : t.depth ≤ limit)
    (markup : Markup) : parseWithin limit (t.compact markup) = .ok (t.respelled markup) := by
  have hparse : parseWithin limit (t.spaced markup .none 0 ++ []) = .ok (t.respelled markup) :=
    parseWithin_spaced h hdepth markup .none 0 (by simp)
  rwa [List.append_nil, spaced_none t] at hparse

theorem parse_compact {t : Tree} (h : t.WellFormed) (hdepth : t.depth ≤ maxDepth)
    (markup : Markup) : parse (t.compact markup) = .ok (t.respelled markup) :=
  parseWithin_compact h hdepth markup

/-! ## What the reader accepts -/

/-- A well-formed document that may stand inside `level` lists and objects. -/
structure Tree.Fits (t : Tree) (limit level : Nat) : Prop where
  wellFormed : t.WellFormed
  depth : level + t.depth ≤ limit

theorem fits_array {items : List Tree} {level : Nat} (hlevel : level < limit)
    (h : ∀ t ∈ items, t.Fits limit (level + 1)) : (Tree.array items).Fits limit level := by
  refine ⟨.array (fun t ht => (h t ht).wellFormed), ?_⟩
  have hitems : itemsDepth items ≤ limit - (level + 1) := by
    refine itemsDepth_le ?_
    intro t ht
    have := (h t ht).depth
    omega
  rw [Tree.depth]
  omega

theorem fits_object {members : List (List Char × Tree)} {level : Nat} (hlevel : level < limit)
    (h : ∀ m ∈ members, IsBody m.1 ∧ m.2.Fits limit (level + 1)) : (Tree.object members).Fits limit level := by
  refine ⟨.object (fun m hm => (h m hm).1) (fun m hm => (h m hm).2.wellFormed), ?_⟩
  have hmembers : membersDepth members ≤ limit - (level + 1) := by
    refine membersDepth_le ?_
    intro m hm
    have := (h m hm).2.depth
    omega
  rw [Tree.depth]
  omega

/-- The finished parts of a list or an object fit inside `level` lists and objects. -/
def Frame.Fits (limit level : Nat) : Frame → Prop
  | .array items => ∀ t ∈ items, t.Fits limit level
  | .object members key => IsBody key ∧ ∀ m ∈ members, IsBody m.1 ∧ m.2.Fits limit level

/-- What is open has its place within the limit. -/
def FramesFit (limit : Nat) : List Frame → Prop
  | [] => True
  | frame :: outer =>
    outer.length < limit ∧ frame.Fits limit (outer.length + 1) ∧ FramesFit limit outer

theorem FramesFit.length_le {frames : List Frame} (h : FramesFit limit frames) :
    frames.length ≤ limit := by
  cases frames with
  | nil => exact Nat.zero_le limit
  | cons frame outer => exact h.1

/-- What was read so far can be completed to something that fits. -/
def Mode.Fits (limit level : Nat) : Mode → Prop
  | .value | .key | .colon => True
  | .firstItem | .firstKey => 0 < level
  | .separator done => done.Fits limit level
  | .text _role body => IsBody body.reverse
  | .escape _role body => ∃ front, body = '\\' :: front ∧ IsBody front.reverse
  | .hexDigits count _role body => ∃ front digits, body = digits ++ 'u' :: '\\' :: front ∧
      IsBody front.reverse ∧ digits.length + count = 4 ∧ 1 ≤ count ∧
      ∀ d ∈ digits, (hexValue? d).isSome = true
  | .number phase spelling => ∃ c rest first, spelling.reverse = c :: rest ∧
      NumberPhase.start? c = some first ∧ first.run rest = some phase
  | .word _ _ result => result.Fits limit level

structure State.Fits (limit : Nat) (s : State) : Prop where
  frames : FramesFit limit s.frames
  mode : s.mode.Fits limit s.frames.length

def Step.Fits (limit : Nat) : Step → Prop
  | .more s => s.Fits limit
  | .complete t => t.Fits limit 0
  | .fault _ => True

variable {s : State} {c : Char}

/-- A value without parts has its place wherever a value may stand. -/
theorem fits_scalar {t : Tree} (h : t.WellFormed) (hdepth : t.depth = 0) {frames : List Frame}
    (hframes : FramesFit limit frames) : t.Fits limit frames.length := by
  have := hframes.length_le
  exact ⟨h, by omega⟩

theorem beginValue_fits (h : FramesFit limit s.frames) : (beginValue limit s c).Fits limit := by
  have hopen : ∀ frame mode, (∀ level, Frame.Fits limit level frame) →
      Mode.Fits limit (s.frames.length + 1) mode → (open_ limit s frame mode).Fits limit := by
    intro frame mode hframe hmode
    unfold open_
    split
    · next hlt => exact ⟨⟨hlt, hframe _, h⟩, hmode⟩
    · trivial
  have hnumber : ∀ phase, NumberPhase.start? c = some phase →
      (Step.more { s with mode := .number phase [c] }).Fits limit := fun phase hphase =>
    ⟨h, c, [], phase, rfl, hphase, rfl⟩
  unfold beginValue
  split
  · exact hopen _ _ (fun _ => ⟨.nil, by simp⟩) (Nat.zero_lt_succ _)
  split
  · exact hopen _ _ (fun _ => by simp [Frame.Fits]) (Nat.zero_lt_succ _)
  split
  · exact ⟨h, .nil⟩
  split
  · next hc => exact hnumber _ (by simp [NumberPhase.start?, hc])
  split
  · next hminus hc => exact hnumber _ (by simp [NumberPhase.start?, hminus, hc])
  split
  · next hminus hzero hc => exact hnumber _ (by simp [NumberPhase.start?, hminus, hzero, hc])
  split
  · exact ⟨h, fits_scalar (.bool true) rfl h⟩
  split
  · exact ⟨h, fits_scalar (.bool false) rfl h⟩
  split
  · exact ⟨h, fits_scalar .null rfl h⟩
  · trivial

theorem afterValue_fits {frames : List Frame} (h : FramesFit limit frames) {done : Tree}
    (hdone : done.Fits limit frames.length) : (afterValue frames done c).Fits limit := by
  cases frames with
  | nil => exact hdone
  | cons frame outer =>
    obtain ⟨hlevel, hframe, houter⟩ := h
    unfold afterValue
    simp only
    split
    · exact ⟨⟨hlevel, hframe, houter⟩, hdone⟩
    · cases frame with
      | array items =>
        have hitems : ∀ t ∈ done :: items, t.Fits limit (outer.length + 1) := by
          intro t ht
          rcases List.mem_cons.mp ht with rfl | ht
          · exact hdone
          · exact hframe t ht
        simp only
        split
        · exact ⟨⟨hlevel, hitems, houter⟩, trivial⟩
        · split
          · exact ⟨houter, fits_array hlevel (fun t ht => hitems t (List.mem_reverse.mp ht))⟩
          · trivial
      | object members key =>
        have hmembers : ∀ m ∈ (key, done) :: members, IsBody m.1 ∧ m.2.Fits limit (outer.length + 1) := by
          intro m hm
          rcases List.mem_cons.mp hm with rfl | hm
          · exact ⟨hframe.1, hdone⟩
          · exact hframe.2 m hm
        simp only
        split
        · exact ⟨⟨hlevel, ⟨.nil, hmembers⟩, houter⟩, trivial⟩
        · split
          · exact ⟨houter, fits_object hlevel (fun m hm => hmembers m (List.mem_reverse.mp hm))⟩
          · trivial

theorem endString_fits (h : FramesFit limit s.frames) (role : StringRole) {body : List Char}
    (hbody : IsBody body.reverse) : (endString s role body).Fits limit := by
  cases role with
  | value => exact ⟨h, fits_scalar (.string hbody) rfl h⟩
  | key =>
    obtain ⟨frames, mode⟩ := s
    cases frames with
    | nil => exact ⟨h, trivial⟩
    | cons frame outer =>
      cases frame with
      | array items => exact ⟨h, trivial⟩
      | object members key => exact ⟨⟨h.1, ⟨hbody, h.2.1.2⟩, h.2.2⟩, trivial⟩

section Steps

variable {frames : List Frame} {role : StringRole} {body : List Char}

theorem step_text_fits (hframes : FramesFit limit frames) (hbody : IsBody body.reverse) (c : Char) :
    (step limit ⟨frames, .text role body⟩ c).Fits limit := by
  simp only [step]
  split
  · exact endString_fits hframes role hbody
  · next hquote =>
    split
    · next hslash =>
      obtain rfl := eq_of_beq hslash
      exact ⟨hframes, body, rfl, hbody⟩
    · next hslash =>
      split
      · trivial
      · next hcontrol =>
        refine ⟨hframes, ?_⟩
        show IsBody (c :: body).reverse
        rw [List.reverse_cons]
        exact hbody.append (.char (by simpa using hquote) (by simpa using hslash) hcontrol .nil)

theorem step_escape_fits (hframes : FramesFit limit frames) (hbody : IsBody body.reverse) (c : Char) :
    (step limit ⟨frames, .escape role ('\\' :: body)⟩ c).Fits limit := by
  simp only [step]
  split
  · next hu =>
    obtain rfl := eq_of_beq hu
    exact ⟨hframes, body, [], rfl, hbody, by decide, by decide, by simp⟩
  · split
    · next hc =>
      refine ⟨hframes, ?_⟩
      show IsBody (c :: '\\' :: body).reverse
      rw [List.reverse_cons, List.reverse_cons, List.append_assoc]
      exact hbody.append (.short (List.mem_of_elem_eq_true hc) .nil)
    · trivial

theorem step_hexDigits_fits (hframes : FramesFit limit frames) (hbody : IsBody body.reverse)
    {digits : List Char} {count : Nat} (hcount : digits.length + count = 4) (hone : 1 ≤ count)
    (hdigits : ∀ d ∈ digits, (hexValue? d).isSome = true) (c : Char) :
    (step limit ⟨frames, .hexDigits count role (digits ++ 'u' :: '\\' :: body)⟩ c).Fits limit := by
  simp only [step]
  split
  · next hc =>
    have hall : ∀ d ∈ c :: digits, (hexValue? d).isSome = true := by
      intro d hd
      rcases List.mem_cons.mp hd with rfl | hd
      · exact hc
      · exact hdigits d hd
    split
    · next hlast =>
      refine ⟨hframes, ?_⟩
      -- the fourth digit completes the escape
      have hlength : digits.length = 3 := by omega
      obtain ⟨d₃, d₂, d₁, rfl⟩ := List.length_eq_three.mp hlength
      obtain ⟨n, hn⟩ :=
        exists_hex4?_eq (hall d₁ (by simp)) (hall d₂ (by simp)) (hall d₃ (by simp)) hc
      show IsBody (c :: ([d₃, d₂, d₁] ++ 'u' :: '\\' :: body)).reverse
      have hunit := hbody.append (.unit hn .nil)
      simpa using hunit
    · refine ⟨hframes, body, c :: digits, rfl, hbody, ?_, ?_, hall⟩
      · rw [List.length_cons]
        omega
      · omega
  · trivial

theorem step_number_fits (hframes : FramesFit limit frames) {phase first : NumberPhase} {d : Char}
    {rest spelling : List Char} (htext : spelling.reverse = d :: rest)
    (hfirst : NumberPhase.start? d = some first) (hrun : first.run rest = some phase) (c : Char) :
    (step limit ⟨frames, .number phase spelling⟩ c).Fits limit := by
  simp only [step]
  split
  · next next hnext =>
    refine ⟨hframes, d, rest ++ [c], first, by simp [htext], hfirst, ?_⟩
    rw [NumberPhase.run_append hrun, NumberPhase.run, hnext]
    rfl
  · split
    · next hcomplete =>
      exact afterValue_fits hframes (fits_scalar
        (.number ⟨d, rest, first, phase, htext, hfirst, hrun, hcomplete⟩) rfl hframes)
    · trivial

end Steps

theorem step_fits (h : s.Fits limit) (c : Char) : (step limit s c).Fits limit := by
  obtain ⟨frames, mode⟩ := s
  obtain ⟨hframes, hmode⟩ := h
  have hbegin : (beginValue limit ⟨frames, mode⟩ c).Fits limit := beginValue_fits hframes
  -- a list or an object that was just opened may be closed at once
  have hclose : 0 < frames.length →
      FramesFit limit (frames.drop 1) ∧ (frames.drop 1).length < limit := by
    intro hpos
    cases frames with
    | nil => exact absurd hpos (Nat.lt_irrefl 0)
    | cons frame outer => exact ⟨hframes.2.2, hframes.1⟩
  cases mode with
  | value =>
    simp only [step]
    split
    · exact ⟨hframes, trivial⟩
    · exact hbegin
  | firstItem =>
    simp only [step]
    split
    · exact ⟨hframes, hmode⟩
    · split
      · obtain ⟨houter, hlt⟩ := hclose hmode
        exact ⟨houter, fits_array hlt (by simp)⟩
      · exact hbegin
  | firstKey =>
    simp only [step]
    split
    · exact ⟨hframes, hmode⟩
    · split
      · obtain ⟨houter, hlt⟩ := hclose hmode
        exact ⟨houter, fits_object hlt (by simp)⟩
      · split
        · exact ⟨hframes, .nil⟩
        · trivial
  | key =>
    simp only [step]
    split
    · exact ⟨hframes, trivial⟩
    · split
      · exact ⟨hframes, .nil⟩
      · trivial
  | colon =>
    simp only [step]
    split
    · exact ⟨hframes, trivial⟩
    · split
      · exact ⟨hframes, trivial⟩
      · trivial
  | separator done => exact afterValue_fits hframes hmode
  | text role body => exact step_text_fits hframes hmode c
  | escape role body =>
    obtain ⟨front, rfl, hfront⟩ := hmode
    exact step_escape_fits hframes hfront c
  | hexDigits count role body =>
    obtain ⟨front, digits, rfl, hfront, hcount, hone, hdigits⟩ := hmode
    exact step_hexDigits_fits hframes hfront hcount hone hdigits c
  | number phase spelling =>
    obtain ⟨d, rest, first, htext, hfirst, hrun⟩ := hmode
    exact step_number_fits hframes htext hfirst hrun c
  | word name rest result =>
    simp only [step]
    split
    · exact afterValue_fits hframes hmode
    · split
      · exact ⟨hframes, hmode⟩
      · trivial
    · split
      · exact ⟨hframes, hmode⟩
      · trivial

theorem fits_of_finish {t : Tree} (h : s.Fits limit) (ht : finish s = .ok t) : t.Fits limit 0 := by
  obtain ⟨frames, mode⟩ := s
  obtain ⟨hframes, hmode⟩ := h
  unfold finish at ht
  split at ht
  · next done hnil hseparator =>
    obtain rfl := Except.ok.inj ht
    simp only at hnil hseparator hmode
    rwa [hnil, hseparator] at hmode
  · next phase spelling hnil hnumber =>
    simp only at hnil hnumber hmode
    rw [hnumber] at hmode
    obtain ⟨c, rest, first, htext, hfirst, hrun⟩ := hmode
    split at ht
    · next hcomplete =>
      obtain rfl := Except.ok.inj ht
      exact ⟨.number ⟨c, rest, first, phase, htext, hfirst, hrun, hcomplete⟩, Nat.zero_le limit⟩
    · cases ht
  · next name done hnil hword =>
    obtain rfl := Except.ok.inj ht
    simp only at hnil hword hmode
    rwa [hnil, hword] at hmode
  · cases ht

theorem fits_of_runFrom {cs rest : List Char} {t : Tree} (h : s.Fits limit)
    (ht : runFrom limit s cs = .ok (t, rest)) : t.Fits limit 0 := by
  induction cs generalizing s with
  | nil =>
    rw [runFrom] at ht
    cases hf : finish s with
    | error e => simp [hf, Except.map] at ht
    | ok done =>
      have hdone := fits_of_finish h hf
      simp only [hf, Except.map, Except.ok.injEq, Prod.mk.injEq] at ht
      exact ht.1 ▸ hdone
  | cons c cs ih =>
    have hstep := step_fits h c
    rw [runFrom] at ht
    cases hs : step limit s c with
    | more next =>
      rw [hs] at ht hstep
      exact ih hstep ht
    | complete done =>
      rw [hs] at ht hstep
      simp only [Except.ok.injEq, Prod.mk.injEq] at ht
      exact ht.1 ▸ hstep
    | fault f => simp [hs] at ht

/-- The reader accepts well-formed documents within the limit only. -/
theorem fits_of_parseWithin {cs : List Char} {t : Tree} (h : parseWithin limit cs = .ok t) :
    t.Fits limit 0 := by
  unfold parseWithin at h
  split at h
  · cases h
  · next first rest hread =>
    have hfirst : first.Fits limit 0 := fits_of_runFrom (s := ⟨[], .value⟩) ⟨trivial, trivial⟩ hread
    split at h
    · obtain rfl := Except.ok.inj h
      exact hfirst
    · cases h

theorem fits_of_parse {cs : List Char} {t : Tree} (h : parse cs = .ok t) : t.Fits maxDepth 0 :=
  fits_of_parseWithin h

/-! ## Higher limits -/

section Limits

variable {limit' : Nat}

theorem opens_of_le (hle : limit ≤ limit') {frame : Frame} {mode : Mode}
    (h : ∀ f, open_ limit s frame mode ≠ .fault f) :
    open_ limit' s frame mode = open_ limit s frame mode := by
  unfold open_ at h ⊢
  by_cases hlt : s.frames.length < limit
  · rw [if_pos hlt, if_pos (Nat.lt_of_lt_of_le hlt hle)]
  · exact absurd (if_neg hlt) (h .tooDeep)

theorem beginValue_of_le (hle : limit ≤ limit') (h : ∀ f, beginValue limit s c ≠ .fault f) :
    beginValue limit' s c = beginValue limit s c := by
  unfold beginValue at h ⊢
  by_cases hobject : (c == '\x7b') = true
  · rw [if_pos hobject] at h ⊢
    rw [if_pos hobject, opens_of_le hle h]
  · rw [if_neg hobject] at h ⊢
    rw [if_neg hobject]
    by_cases harray : (c == '[') = true
    · rw [if_pos harray] at h ⊢
      rw [if_pos harray, opens_of_le hle h]
    · rw [if_neg harray, if_neg harray]

/-- A limit only tells where the reader stops. -/
theorem step_of_le (hle : limit ≤ limit') (h : ∀ f, step limit s c ≠ .fault f) :
    step limit' s c = step limit s c := by
  obtain ⟨frames, mode⟩ := s
  cases mode with
  | value =>
    simp only [step] at h ⊢
    by_cases hgap : isGap c = true
    · simp [hgap]
    · rw [if_neg hgap] at h ⊢
      rw [if_neg hgap, beginValue_of_le hle h]
  | firstItem =>
    simp only [step] at h ⊢
    by_cases hgap : isGap c = true
    · simp [hgap]
    · rw [if_neg hgap] at h ⊢
      rw [if_neg hgap]
      by_cases hclose : (c == ']') = true
      · simp [hclose]
      · rw [if_neg hclose] at h ⊢
        rw [if_neg hclose, beginValue_of_le hle h]
  | _ => rfl

theorem runFrom_of_le (hle : limit ≤ limit') {cs : List Char} {r : Tree × List Char}
    (h : runFrom limit s cs = .ok r) : runFrom limit' s cs = .ok r := by
  induction cs generalizing s with
  | nil => exact h
  | cons c cs ih =>
    rw [runFrom] at h ⊢
    cases hstep : step limit s c with
    | fault f => simp [hstep] at h
    | complete done =>
      rw [step_of_le hle (by simp [hstep]), hstep]
      rwa [hstep] at h
    | more next =>
      rw [step_of_le hle (by simp [hstep]), hstep]
      rw [hstep] at h
      exact ih h

/-- What is read within a limit is read within every higher one. -/
theorem parseWithin_of_le (hle : limit ≤ limit') {cs : List Char} {t : Tree}
    (h : parseWithin limit cs = .ok t) : parseWithin limit' cs = .ok t := by
  cases hread : readWithin limit cs with
  | error f => simp [parseWithin, hread] at h
  | ok r =>
    have hread' : readWithin limit' cs = .ok r := runFrom_of_le hle hread
    rwa [parseWithin, hread', ← hread, ← parseWithin]

end Limits

/-- A compact document is read exactly within the limits that it keeps. -/
theorem toOption_parseWithin_compact {t : Tree} (h : t.WellFormed) (limit : Nat) (markup : Markup) :
    (parseWithin limit (t.compact markup)).toOption =
      if t.depth ≤ limit then some (t.respelled markup) else none := by
  by_cases hdepth : t.depth ≤ limit
  · rw [parseWithin_compact h hdepth, if_pos hdepth]
    rfl
  · rw [if_neg hdepth]
    cases hparse : parseWithin limit (t.compact markup) with
    | error f => rfl
    | ok t' =>
      -- a reader that takes the document takes all of it
      have hhigh := parseWithin_of_le (Nat.le_of_not_le hdepth) hparse
      rw [parseWithin_compact h (Nat.le_refl _)] at hhigh
      obtain rfl := Except.ok.inj hhigh
      have hfits := (fits_of_parseWithin hparse).depth
      rw [depth_respelled] at hfits
      omega

end FlowScript.Json
