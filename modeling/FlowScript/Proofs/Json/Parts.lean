import Mathlib.Data.List.Forall2
import FlowScript.Proofs.Json.Inside

/-!
# The parts of documents

The items of a list and the members of an object are cut out of the text of a document by reading
them one after the other. They are the items and the members that the reader found when it read the
document as a whole, and each of them is a part of the text.

## Main results

- `Written.map_tree_items`, `Written.map_tree_members` — what is cut out are the parts of the tree
- `Written.infix_of_mem_items`, `Written.infix_of_mem_members` — the parts stand in the text
- `Written.items_spaced`, `Written.members_spaced` — the parts of a document that was written with
  blanks between its tokens
-/

namespace FlowScript.Json

variable {limit : Nat} {s next : State} {c : Char} {cs rest : List Char} {t : Tree}
  {r : Tree × List Char} {outer : List Frame}

namespace Written

theorem first_of_read (h : read cs = .ok (t, rest)) :
    ∃ w, first cs = .ok (w, rest) ∧ w.tree = t ∧ w.text ++ rest = cs.dropWhile isGap := by
  rw [← read_dropWhile_isGap] at h
  unfold first
  simp only
  split
  · next hread => simp [h] at hread
  · next t' rest' hread =>
    obtain ⟨rfl, rfl⟩ : t = t' ∧ rest = rest' := by
      rw [h] at hread
      simpa using hread
    exact ⟨_, rfl, rfl, front_append_of_read h⟩

/-- The first value inside of a list or an object is read where it stands. -/
theorem exists_first (houter : outer ≠ []) (h : runFrom maxDepth ⟨outer, .value⟩ cs = .ok r) :
    ∃ w rest, first cs = .ok (w, rest) ∧ rest.length ≤ cs.length ∧
      runFrom maxDepth ⟨outer, .separator w.tree⟩ rest = .ok r := by
  obtain ⟨text, rest, t, rfl, hvalue, hrest⟩ :=
    exists_value_of_runFrom_within (s := ⟨[], .value⟩) houter trivial h
  have hread := runFrom_append_stops hvalue (stops_of_runFrom_separator houter hrest)
  obtain ⟨w, hfirst, rfl, -⟩ := first_of_read hread
  exact ⟨w, rest, hfirst, by simp, hrest⟩

theorem length_behindMark_lt (h : (cs.dropWhile isGap).head? = some c) :
    (behindMark cs).length < cs.length := by
  have hle := (List.dropWhile_suffix isGap (l := cs)).length_le
  obtain ⟨more, hmore⟩ := List.head?_eq_some_iff.mp h
  rw [behindMark, hmore, List.drop_one, List.tail_cons]
  rw [hmore, List.length_cons] at hle
  omega

/-! ## The items of a list -/

/-- What stands behind an item: a comma and more items, or the end of the list. -/
theorem array_cases {acc : List Tree}
    (h : runFrom maxDepth ⟨[.array acc], .separator t⟩ cs = .ok r) :
    (behindMark cs).length < cs.length ∧
        runFrom maxDepth ⟨[.array (t :: acc)], .value⟩ (behindMark cs) = .ok r ∨
      r.1 = .array (acc.reverse ++ [t]) := by
  obtain ⟨c, next, hhead, hgap, hstep, hnext⟩ :=
    exists_token (fun _ => step_separator_gap (.array acc) [] t) rfl h
  simp only [step, afterValue, hgap] at hstep
  by_cases hcomma : c = ','
  · subst hcomma
    obtain rfl := Step.more.inj hstep
    exact .inl ⟨length_behindMark_lt hhead, hnext⟩
  · by_cases hclose : c = ']'
    · subst hclose
      obtain rfl := Step.more.inj hstep
      rw [runFrom_separator] at hnext
      obtain rfl := Except.ok.inj hnext
      exact .inr (by simp)
    · simp [hcomma, hclose] at hstep

/-- The items of a list are cut out of its text as the reader takes them. -/
theorem exists_items {cs : List Char} {acc : List Tree}
    (h : runFrom maxDepth ⟨[.array acc], .value⟩ cs = .ok r) :
    ∃ parts : List Written, r.1 = .array (acc.reverse ++ parts.map tree) ∧
      ∀ before, behindMark before = cs → itemsFrom (parts.map tree) before = parts := by
  obtain ⟨w, rest, hfirst, hle, hrest⟩ := exists_first (List.cons_ne_nil _ _) h
  rcases array_cases hrest with ⟨hlt, hmore⟩ | hlast
  · obtain ⟨parts, hr, hparts⟩ := exists_items hmore
    refine ⟨w :: parts, by simp [hr], ?_⟩
    intro before hbefore
    rw [List.map_cons, itemsFrom, hbefore, hfirst]
    simp only
    rw [hparts rest rfl]
  · refine ⟨[w], by simp [hlast], ?_⟩
    intro before hbefore
    rw [List.map_singleton, itemsFrom, hbefore, hfirst]
    rfl
termination_by cs.length
decreasing_by omega

/-- A list that was just opened ends at once, or goes on with its first item. -/
theorem firstItem_cases (h : runFrom maxDepth ⟨[.array []], .firstItem⟩ cs = .ok r) :
    r.1 = .array [] ∨ runFrom maxDepth ⟨[.array []], .value⟩ cs = .ok r := by
  obtain ⟨c, next, hhead, hgap, hstep, hnext⟩ :=
    exists_token (fun _ => step_gap (.inr rfl) [.array []]) rfl h
  by_cases hclose : c = ']'
  · subst hclose
    obtain rfl := Step.more.inj hstep
    have hdone : runFrom maxDepth ⟨[], .separator (.array [])⟩ (behindMark cs) = .ok r := hnext
    rw [runFrom_separator] at hdone
    obtain rfl := Except.ok.inj hdone
    exact .inl rfl
  · refine .inr ?_
    rw [step_begins (.inr rfl) _ hgap hclose] at hstep
    have hvalue : step maxDepth ⟨[.array []], .value⟩ c = .more next :=
      (step_begins (.inl rfl) _ hgap hclose).trans hstep
    rw [← runFrom_dropWhile_isGap (fun _ => step_gap (.inl rfl) [.array []])]
    obtain ⟨more, hmore⟩ := List.head?_eq_some_iff.mp hhead
    rw [behindMark, hmore] at hnext
    rw [hmore, runFrom_more hvalue]
    exact hnext

/-! ## The members of an object -/

end Written

/-- What was read of a key, in reverse order. -/
def Mode.keyBody? : Mode → Option (List Char)
  | .text .key body | .escape .key body | .hexDigits _ .key body => some body
  | _ => none

/-- A character inside of a key is taken as it is; a quote may end the key. -/
theorem step_key {frame : Frame} {frames : List Frame} {mode : Mode} {body : List Char}
    (hmode : mode.keyBody? = some body) (h : step limit ⟨frame :: frames, mode⟩ c = .more next) :
    (c = '"' ∧ next = endString ⟨frame :: frames, mode⟩ .key body) ∨
      next.frames = frame :: frames ∧ next.mode.keyBody? = some (c :: body) := by
  unfold Mode.keyBody? at hmode
  split at hmode
  · obtain rfl := Option.some.inj hmode
    simp only [step] at h
    split at h
    · next hquote => exact .inl ⟨eq_of_beq hquote, (Step.more.inj h).symm⟩
    · split at h
      · obtain rfl := Step.more.inj h
        exact .inr ⟨rfl, rfl⟩
      · split at h
        · cases h
        · obtain rfl := Step.more.inj h
          exact .inr ⟨rfl, rfl⟩
  · obtain rfl := Option.some.inj hmode
    simp only [step] at h
    split at h
    · obtain rfl := Step.more.inj h
      exact .inr ⟨rfl, rfl⟩
    · split at h
      · obtain rfl := Step.more.inj h
        exact .inr ⟨rfl, rfl⟩
      · cases h
  · obtain rfl := Option.some.inj hmode
    simp only [step] at h
    split at h
    · split at h
      · obtain rfl := Step.more.inj h
        exact .inr ⟨rfl, rfl⟩
      · obtain rfl := Step.more.inj h
        exact .inr ⟨rfl, rfl⟩
    · cases h
  · cases hmode

/-- A key ends at a quote, and its body is what stands in front. -/
theorem exists_key {acc : List (List Char × Tree)} {before body : List Char} {frames : List Frame}
    {mode : Mode} (hmode : mode.keyBody? = some body)
    (h : runFrom limit ⟨.object acc before :: frames, mode⟩ cs = .ok r) :
    ∃ text rest, cs = text ++ '"' :: rest ∧
      runFrom limit ⟨.object acc (body.reverse ++ text) :: frames, .colon⟩ rest = .ok r := by
  induction cs generalizing mode body with
  | nil => cases h
  | cons c cs ih =>
    rw [runFrom] at h
    cases hstep : step limit ⟨.object acc before :: frames, mode⟩ c with
    | fault f => simp [hstep] at h
    | complete done => exact absurd hstep (step_ne_complete (List.cons_ne_nil _ _))
    | more next =>
      rw [hstep] at h
      rcases step_key hmode hstep with ⟨rfl, rfl⟩ | ⟨hframes, hbody⟩
      · exact ⟨[], cs, rfl, by simpa [endString] using h⟩
      · obtain ⟨frames', mode'⟩ := next
        obtain rfl : frames' = _ := hframes
        obtain ⟨text, rest, rfl, hrest⟩ := ih hbody h
        exact ⟨c :: text, rest, rfl, by simpa using hrest⟩

namespace Written

/-- From the colon behind a key to the value. -/
theorem runFrom_colon (houter : outer ≠ []) (h : runFrom limit ⟨outer, .colon⟩ cs = .ok r) :
    (behindMark cs).length < cs.length ∧
      runFrom limit ⟨outer, .value⟩ (behindMark cs) = .ok r := by
  obtain ⟨frame, frames, rfl⟩ := List.exists_cons_of_ne_nil houter
  obtain ⟨c, next, hhead, hgap, hstep, hnext⟩ :=
    exists_token (fun _ hgap => by simp [step, hgap]) rfl h
  by_cases hcolon : c = ':'
  · subst hcolon
    obtain rfl := Step.more.inj hstep
    exact ⟨length_behindMark_lt hhead, hnext⟩
  · simp [step, hgap, hcolon] at hstep

theorem behindKey_eq_of_behindMark_eq {key : List Char} (h : behindMark cs = key ++ '"' :: rest) :
    behindKey key cs = rest := by
  have hdrop : behindKey key cs = (behindMark cs).drop (key.length + 1) := by
    rw [behindKey, behindMark, List.drop_drop, Nat.add_comm 1]
  simp [hdrop, h]

theorem exists_member {acc : List (List Char × Tree)} {before : List Char}
    (h : runFrom maxDepth ⟨[.object acc before], .key⟩ cs = .ok r) :
    ∃ key w rest, first (behindMark (behindKey key cs)) = .ok (w, rest) ∧
      rest.length < cs.length ∧
      runFrom maxDepth ⟨[.object acc key], .separator w.tree⟩ rest = .ok r := by
  obtain ⟨c, next, hhead, hgap, hstep, hnext⟩ :=
    exists_token (fun _ hgap => by simp [step, hgap]) rfl h
  by_cases hquote : c = '"'
  · subst hquote
    obtain rfl := Step.more.inj hstep
    obtain ⟨key, rest, hkey, hcolon⟩ := exists_key (by rfl) hnext
    obtain ⟨hlt, hvalue⟩ := runFrom_colon (List.cons_ne_nil _ _) hcolon
    obtain ⟨w, rest', hfirst, hle, hsep⟩ := exists_first (List.cons_ne_nil _ _) hvalue
    refine ⟨key, w, rest', by rw [behindKey_eq_of_behindMark_eq hkey]; exact hfirst, ?_, hsep⟩
    have hshort : rest.length < (behindMark cs).length := by
      rw [hkey, List.length_append, List.length_cons]
      omega
    have hmark := length_behindMark_lt hhead
    omega
  · simp [step, hgap, hquote] at hstep

/-- What stands behind a member: a comma and more members, or the end of the object. -/
theorem object_cases {acc : List (List Char × Tree)} {key : List Char}
    (h : runFrom maxDepth ⟨[.object acc key], .separator t⟩ cs = .ok r) :
    (behindMark cs).length < cs.length ∧
        runFrom maxDepth ⟨[.object ((key, t) :: acc) []], .key⟩ (behindMark cs) = .ok r ∨
      r.1 = .object (acc.reverse ++ [(key, t)]) := by
  obtain ⟨c, next, hhead, hgap, hstep, hnext⟩ :=
    exists_token (fun _ => step_separator_gap (.object acc key) [] t) rfl h
  simp only [step, afterValue, hgap] at hstep
  by_cases hcomma : c = ','
  · subst hcomma
    obtain rfl := Step.more.inj hstep
    exact .inl ⟨length_behindMark_lt hhead, hnext⟩
  · by_cases hclose : c = '\x7d'
    · subst hclose
      obtain rfl := Step.more.inj hstep
      rw [runFrom_separator] at hnext
      obtain rfl := Except.ok.inj hnext
      exact .inr (by simp)
    · simp [hcomma, hclose] at hstep

/-- The members of an object are cut out of its text as the reader takes them. -/
theorem exists_members {cs : List Char} {acc : List (List Char × Tree)} {before : List Char}
    (h : runFrom maxDepth ⟨[.object acc before], .key⟩ cs = .ok r) :
    ∃ parts : List (List Char × Written),
      r.1 = .object (acc.reverse ++ parts.map (fun m => (m.1, m.2.tree))) ∧
      ∀ before, behindMark before = cs →
        membersFrom (parts.map (fun m => (m.1, m.2.tree))) before = parts := by
  obtain ⟨key, w, rest, hfirst, hlt, hsep⟩ := exists_member h
  rcases object_cases hsep with ⟨hmarkLt, hmore⟩ | hlast
  · obtain ⟨parts, hr, hparts⟩ := exists_members hmore
    refine ⟨(key, w) :: parts, by simp [hr], ?_⟩
    intro before hbefore
    rw [List.map_cons, membersFrom, hbefore, hfirst]
    simp only
    rw [hparts rest rfl]
  · refine ⟨[(key, w)], by simp [hlast], ?_⟩
    intro before hbefore
    rw [List.map_singleton, membersFrom, hbefore, hfirst]
    rfl
termination_by cs.length
decreasing_by omega

/-- An object that was just opened ends at once, or goes on with its first key. -/
theorem firstKey_cases (h : runFrom maxDepth ⟨[.object [] []], .firstKey⟩ cs = .ok r) :
    r.1 = .object [] ∨ runFrom maxDepth ⟨[.object [] []], .key⟩ cs = .ok r := by
  obtain ⟨c, next, hhead, hgap, hstep, hnext⟩ :=
    exists_token (fun _ hgap => by simp [step, hgap]) rfl h
  by_cases hclose : c = '\x7d'
  · subst hclose
    obtain rfl := Step.more.inj hstep
    have hdone : runFrom maxDepth ⟨[], .separator (.object [])⟩ (behindMark cs) = .ok r := hnext
    rw [runFrom_separator] at hdone
    obtain rfl := Except.ok.inj hdone
    exact .inl rfl
  · refine .inr ?_
    have hkey : step maxDepth ⟨[.object [] []], .key⟩ c = .more next := by
      rw [← hstep]
      simp [step, hgap, hclose]
    rw [← runFrom_dropWhile_isGap (fun _ hgap => by simp [step, hgap])]
    obtain ⟨more, hmore⟩ := List.head?_eq_some_iff.mp hhead
    rw [behindMark, hmore] at hnext
    rw [hmore, runFrom_more hkey]
    exact hnext

end Written

/-! ## Values without parts -/

/-- A value that is no list and no object. -/
def Tree.IsScalar : Tree → Prop
  | .array _ | .object _ => False
  | _ => True

/-- The mode leads to a value without parts, when nothing is open. -/
def Mode.IsScalar : Mode → Prop
  | .text .value _ | .escape .value _ | .hexDigits _ .value _ | .number .. => True
  | .separator t | .word _ _ t => t.IsScalar
  | _ => False

theorem isScalar_of_finish {mode : Mode} (hmode : mode.IsScalar)
    (h : finish ⟨[], mode⟩ = .ok t) : t.IsScalar := by
  unfold finish at h
  split at h
  · next done _ hdone =>
    obtain rfl := Except.ok.inj h
    simp only at hdone
    subst hdone
    exact hmode
  · split at h
    · obtain rfl := Except.ok.inj h
      trivial
    · cases h
  · next name done _ hword =>
    obtain rfl := Except.ok.inj h
    simp only at hword
    subst hword
    exact hmode
  · cases h

theorem isScalar_step {mode : Mode} (hmode : mode.IsScalar)
    (h : step limit ⟨[], mode⟩ c = .more next) : next.frames = [] ∧ next.mode.IsScalar := by
  cases mode with
  | text role body =>
    cases role with
    | key => exact hmode.elim
    | value =>
      simp only [step] at h
      repeat' split at h
      all_goals cases h
      all_goals exact ⟨rfl, trivial⟩
  | escape role body =>
    cases role with
    | key => exact hmode.elim
    | value =>
      simp only [step] at h
      repeat' split at h
      all_goals cases h
      all_goals exact ⟨rfl, trivial⟩
  | hexDigits count role body =>
    cases role with
    | key => exact hmode.elim
    | value =>
      simp only [step] at h
      repeat' split at h
      all_goals cases h
      all_goals exact ⟨rfl, trivial⟩
  | number phase text =>
    simp only [step, afterValue] at h
    repeat' split at h
    all_goals cases h
    all_goals exact ⟨rfl, trivial⟩
  | word name rest result =>
    simp only [step, afterValue] at h
    repeat' split at h
    all_goals cases h
    all_goals exact ⟨rfl, hmode⟩
  | separator done => cases h
  | _ => exact hmode.elim

theorem isScalar_of_runFrom {mode : Mode} (hmode : mode.IsScalar)
    (h : runFrom limit ⟨[], mode⟩ cs = .ok r) : r.1.IsScalar := by
  induction cs generalizing mode with
  | nil =>
    rw [runFrom] at h
    cases hf : finish ⟨[], mode⟩ with
    | error e => simp [hf, Except.map] at h
    | ok done =>
      obtain rfl : _ = r := by simpa [hf, Except.map] using h
      exact isScalar_of_finish hmode hf
  | cons c cs ih =>
    rw [runFrom] at h
    cases hstep : step limit ⟨[], mode⟩ c with
    | fault f => simp [hstep] at h
    | complete done =>
      obtain rfl : _ = r := by simpa [hstep] using h
      exact isScalar_of_finish hmode (finish_of_complete hstep)
    | more next =>
      rw [hstep] at h
      obtain ⟨frames, mode'⟩ := next
      obtain ⟨rfl, hmode'⟩ := isScalar_step hmode hstep
      exact ih hmode' h

theorem beginValue_cases (h : beginValue limit ⟨[], .value⟩ c = .more next) :
    next = ⟨[.array []], .firstItem⟩ ∨ next = ⟨[.object [] []], .firstKey⟩ ∨
      next.frames = [] ∧ next.mode.IsScalar := by
  have hopen : ∀ {frame mode}, open_ limit ⟨[], .value⟩ frame mode = .more next →
      next = ⟨[frame], mode⟩ := by
    intro frame mode h
    unfold open_ at h
    split at h
    · exact (Step.more.inj h).symm
    · cases h
  unfold beginValue at h
  split at h
  · exact .inr (.inl (hopen h))
  split at h
  · exact .inl (hopen h)
  · refine .inr (.inr ?_)
    repeat' split at h
    all_goals cases h
    all_goals exact ⟨rfl, trivial⟩

/-- The first character of a value tells whether it is a list, an object or a value without parts. -/
theorem read_cases (h : read cs = .ok r) :
    runFrom maxDepth ⟨[.array []], .firstItem⟩ (Written.behindMark cs) = .ok r ∨
      runFrom maxDepth ⟨[.object [] []], .firstKey⟩ (Written.behindMark cs) = .ok r ∨
      r.1.IsScalar := by
  obtain ⟨c, next, hhead, hgap, hstep, hnext⟩ :=
    exists_token (fun _ => step_gap (.inl rfl) []) rfl h
  have hbegin : beginValue maxDepth ⟨[], .value⟩ c = .more next := by
    rw [← hstep]
    simp [step, hgap]
  rcases beginValue_cases hbegin with rfl | rfl | ⟨hframes, hmode⟩
  · exact .inl hnext
  · exact .inr (.inl hnext)
  · obtain ⟨frames, mode⟩ := next
    obtain rfl : frames = [] := hframes
    exact .inr (.inr (isScalar_of_runFrom hmode hnext))

namespace Written

variable {w : Written}

theorem exists_read (w : Written) : ∃ rest, read w.text = .ok (w.tree, rest) := by
  have h := w.holds
  unfold parse parseWithin at h
  cases hread : readWithin maxDepth w.text with
  | error f => simp [hread] at h
  | ok r =>
    obtain ⟨t, rest⟩ := r
    simp only [hread] at h
    split at h
    · obtain rfl := Except.ok.inj h
      exact ⟨rest, hread⟩
    · cases h

/-- The items that are cut out of a text are those of its list. -/
theorem map_tree_items {items : List Tree} (h : w.tree = .array items) :
    w.items.map tree = items := by
  have hitems : w.items = itemsFrom items w.text := by
    unfold Written.items
    rw [h]
  obtain ⟨rest, hread⟩ := w.exists_read
  rw [h] at hread
  rcases read_cases hread with hopen | hopen | hscalar
  · rcases firstItem_cases hopen with hnil | hvalue
    · obtain rfl := Tree.array.inj hnil
      rw [hitems]
      rfl
    · obtain ⟨parts, hparts, hcut⟩ := exists_items hvalue
      obtain rfl := Tree.array.inj hparts
      rw [hitems, List.reverse_nil, List.nil_append, hcut w.text rfl]
  · rcases firstKey_cases hopen with hnil | hkey
    · cases hnil
    · obtain ⟨parts, hparts, -⟩ := exists_members hkey
      cases hparts
  · exact hscalar.elim

/-- The members that are cut out of a text are those of its object. -/
theorem map_tree_members {members : List (List Char × Tree)} (h : w.tree = .object members) :
    w.members.map (fun m => (m.1, m.2.tree)) = members := by
  have hmembers : w.members = membersFrom members w.text := by
    unfold Written.members
    rw [h]
  obtain ⟨rest, hread⟩ := w.exists_read
  rw [h] at hread
  rcases read_cases hread with hopen | hopen | hscalar
  · rcases firstItem_cases hopen with hnil | hvalue
    · cases hnil
    · obtain ⟨parts, hparts, -⟩ := exists_items hvalue
      cases hparts
  · rcases firstKey_cases hopen with hnil | hkey
    · obtain rfl := Tree.object.inj hnil
      rw [hmembers]
      rfl
    · obtain ⟨parts, hparts, hcut⟩ := exists_members hkey
      obtain rfl := Tree.object.inj hparts
      rw [hmembers, List.reverse_nil, List.nil_append, hcut w.text rfl]
  · exact hscalar.elim

/-! ## Where the parts stand -/

theorem fits (w : Written) : w.tree.Fits maxDepth 0 :=
  fits_of_parse w.holds

theorem behindMark_suffix (cs : List Char) : behindMark cs <:+ cs :=
  (List.drop_suffix _ _).trans (List.dropWhile_suffix _)

theorem behindKey_suffix (key cs : List Char) : behindKey key cs <:+ cs :=
  (List.drop_suffix _ _).trans (List.dropWhile_suffix _)

theorem infix_of_first {w : Written} (h : first cs = .ok (w, rest)) :
    w.text <:+: cs ∧ rest <:+ cs := by
  unfold first at h
  simp only at h
  split at h
  · cases h
  · next t rest' hread =>
    obtain ⟨rfl, rfl⟩ := Prod.mk.inj (Except.ok.inj h)
    have hsuffix := List.dropWhile_suffix isGap (l := cs)
    have hsplit := front_append_of_read hread
    exact ⟨(hsplit ▸ List.prefix_append _ _).isInfix.trans hsuffix.isInfix,
      (hsplit ▸ List.suffix_append _ _).trans hsuffix⟩

theorem infix_of_mem_itemsFrom {ts : List Tree} {v : Written} (h : v ∈ itemsFrom ts cs) :
    v.text <:+: cs := by
  induction ts generalizing cs with
  | nil => cases h
  | cons t more ih =>
    rw [itemsFrom] at h
    split at h
    · cases h
    · next item rest hfirst =>
      obtain ⟨hitem, hrest⟩ := infix_of_first hfirst
      have hmark := behindMark_suffix cs
      rcases List.mem_cons.mp h with rfl | h
      · exact hitem.trans hmark.isInfix
      · exact (ih h).trans (hrest.trans hmark).isInfix

theorem infix_of_mem_membersFrom {ts : List (List Char × Tree)} {m : List Char × Written}
    (h : m ∈ membersFrom ts cs) : m.2.text <:+: cs := by
  induction ts generalizing cs with
  | nil => cases h
  | cons t more ih =>
    obtain ⟨key, t⟩ := t
    rw [membersFrom] at h
    split at h
    · cases h
    · next value rest hfirst =>
      obtain ⟨hvalue, hrest⟩ := infix_of_first hfirst
      have hmark := (behindMark_suffix _).trans
        ((behindKey_suffix key _).trans (behindMark_suffix cs))
      rcases List.mem_cons.mp h with rfl | h
      · exact hvalue.trans hmark.isInfix
      · exact (ih h).trans (hrest.trans hmark).isInfix

/-- The items of a list are parts of its text. -/
theorem infix_of_mem_items {v : Written} (h : v ∈ w.items) : v.text <:+: w.text := by
  unfold items at h
  split at h
  · exact infix_of_mem_itemsFrom h
  · cases h

/-- The values of the members of an object are parts of its text. -/
theorem infix_of_mem_members {m : List Char × Written} (h : m ∈ w.members) :
    m.2.text <:+: w.text := by
  unfold members at h
  split at h
  · exact infix_of_mem_membersFrom h
  · cases h

/-! ## The parts of a spaced document -/

variable {markup : Markup} {spacing : Spacing} {depth : Nat}

/-- A document written with blanks between its tokens. -/
structure Shows (markup : Markup) (spacing : Spacing) (depth : Nat) (t : Tree) (w : Written) :
    Prop where
  wellFormed : t.WellFormed
  text : w.text = t.spaced markup spacing depth
  tree : w.tree = t.respelled markup

theorem Shows.begins {t : Tree} (h : w.Shows markup spacing depth t) :
    t.spaced markup spacing depth <+: w.text :=
  ⟨[], by rw [List.append_nil, h.text]⟩

theorem Shows.depth_le {t : Tree} (h : w.Shows markup spacing depth t) : t.depth ≤ maxDepth := by
  have hfits := w.fits.depth
  rw [h.tree, depth_respelled] at hfits
  omega

/-- A document that is not nested too deeply can be written with any blanks. -/
theorem exists_shows {t : Tree} (h : t.WellFormed) (hdepth : t.depth ≤ maxDepth) :
    ∃ w, Shows markup spacing depth t w := by
  have hparse : parse (t.spaced markup spacing depth ++ []) = .ok (t.respelled markup) :=
    parse_spaced h hdepth markup spacing depth (by simp)
  rw [List.append_nil] at hparse
  exact ⟨⟨_, _, hparse⟩, h, rfl, rfl⟩

/-- No blank stands in front of a written document. -/
theorem dropWhile_isGap_spaced {t : Tree} (h : t.WellFormed) (rest : List Char) :
    (t.spaced markup spacing depth ++ rest).dropWhile isGap =
      t.spaced markup spacing depth ++ rest := by
  have hhead : ∃ c more, t.spaced markup spacing depth = c :: more ∧ isGap c = false := by
    cases h with
    | null => exact ⟨_, _, rfl, rfl⟩
    | bool b => cases b <;> exact ⟨_, _, rfl, rfl⟩
    | number hnumber =>
      obtain ⟨c, rest, phase, last, rfl, hstart, -⟩ := hnumber
      exact ⟨c, rest, rfl, (@beginValue_number maxDepth _ _ hstart).1⟩
    | string => exact ⟨_, _, rfl, rfl⟩
    | @array items => cases items <;> exact ⟨_, _, rfl, rfl⟩
    | @object members => cases members <;> exact ⟨_, _, rfl, rfl⟩
  obtain ⟨c, more, htext, hgap⟩ := hhead
  rw [htext, List.cons_append, List.dropWhile_cons_of_neg (by simp [hgap])]

/-- A spaced document is taken as it stands. -/
theorem exists_first_spaced {t : Tree} (h : t.WellFormed) (hdepth : t.depth ≤ maxDepth)
    {gaps : List Char} (hgaps : ∀ c ∈ gaps, isGap c = true) (hrest : Stops rest) :
    ∃ w, first (gaps ++ (t.spaced markup spacing depth ++ rest)) = .ok (w, rest) ∧
      w.Shows markup spacing depth t := by
  have hblanks : (gaps ++ (t.spaced markup spacing depth ++ rest)).dropWhile isGap =
      t.spaced markup spacing depth ++ rest := by
    rw [List.dropWhile_append_of_pos hgaps, dropWhile_isGap_spaced h]
  have hread : read (gaps ++ (t.spaced markup spacing depth ++ rest)) =
      .ok (t.respelled markup, rest) := by
    rw [← read_dropWhile_isGap, hblanks, read, readWithin,
      readBack h markup spacing depth .value [] rest (.inl rfl) (by simpa using hdepth) hrest,
      runFrom_separator]
  obtain ⟨w, hfirst, htree, htext⟩ := first_of_read hread
  rw [hblanks] at htext
  exact ⟨w, hfirst, h, List.append_cancel_right htext, htree⟩

theorem behindMark_cons (h : isGap c = false) (cs : List Char) : behindMark (c :: cs) = cs := by
  rw [behindMark, List.dropWhile_cons_of_neg (by simp [h]), List.drop_one, List.tail_cons]

theorem itemsFrom_spaced {ts : List Tree} (hwf : ∀ t ∈ ts, t.WellFormed)
    (hdepth : ∀ t ∈ ts, t.depth ≤ maxDepth) (hrest : Stops rest) {before : List Char}
    (hbefore : behindMark before = spacedItems markup spacing depth ts ++ rest) :
    List.Forall₂ (Shows markup spacing depth) ts
      (itemsFrom (ts.map (Tree.respelled markup)) before) := by
  induction ts generalizing before with
  | nil => exact .nil
  | cons t more ih =>
    obtain ⟨ht, hmore⟩ := List.forall_mem_cons.mp hwf
    obtain ⟨htdepth, hmoreDepth⟩ := List.forall_mem_cons.mp hdepth
    rw [List.map_cons, itemsFrom, hbefore]
    cases more with
    | nil =>
      obtain ⟨w, hfirst, hshows⟩ := exists_first_spaced ht htdepth (spacing.line_isGap depth) hrest
      rw [spacedItems, List.append_assoc, hfirst]
      exact .cons hshows .nil
    | cons next more =>
      obtain ⟨w, hfirst, hshows⟩ := exists_first_spaced ht htdepth (spacing.line_isGap depth)
        (stops_cons (.inl rfl) (spacedItems markup spacing depth (next :: more) ++ rest))
      have htext : spacedItems markup spacing depth (t :: next :: more) ++ rest =
          spacing.line depth ++ (t.spaced markup spacing depth ++
            ',' :: (spacedItems markup spacing depth (next :: more) ++ rest)) := by
        rw [spacedItems]
        · simp
        · simp
      rw [htext, hfirst]
      exact .cons hshows (ih hmore hmoreDepth (behindMark_cons rfl _))

theorem membersFrom_spaced {ts : List (List Char × Tree)} (hwf : ∀ m ∈ ts, m.2.WellFormed)
    (hdepth : ∀ m ∈ ts, m.2.depth ≤ maxDepth) (hrest : Stops rest) {before : List Char}
    (hbefore : behindMark before = spacedMembers markup spacing depth ts ++ rest) :
    List.Forall₂ (fun m v => v.1 = respell markup m.1 ∧ v.2.Shows markup spacing depth m.2) ts
      (membersFrom (ts.map (fun m => (respell markup m.1, m.2.respelled markup))) before) := by
  have hkey (key cs : List Char) : behindMark (behindKey key
      (spacing.line depth ++ '"' :: (key ++ '"' :: ':' :: cs))) = cs := by
    have hdrop : (key ++ '"' :: ':' :: cs).drop (key.length + 1) = ':' :: cs := by
      rw [← List.drop_drop, List.drop_left]
      rfl
    rw [behindKey, List.dropWhile_append_of_pos (spacing.line_isGap depth)]
    simpa [isGap, hdrop] using behindMark_cons (c := ':') rfl cs
  induction ts generalizing before with
  | nil => exact .nil
  | cons m more ih =>
    obtain ⟨key, t⟩ := m
    obtain ⟨ht, hmore⟩ := List.forall_mem_cons.mp hwf
    obtain ⟨htdepth, hmoreDepth⟩ := List.forall_mem_cons.mp hdepth
    rw [List.map_cons, membersFrom, hbefore]
    cases more with
    | nil =>
      obtain ⟨w, hfirst, hshows⟩ := exists_first_spaced ht htdepth spacing.colon_isGap hrest
      have htext : spacedMembers markup spacing depth [(key, t)] ++ rest =
          spacing.line depth ++ '"' :: (respell markup key ++ '"' :: ':' ::
            (spacing.colon ++ (t.spaced markup spacing depth ++ rest))) := by
        rw [spacedMembers]
        simp
      rw [htext, hkey, hfirst]
      exact .cons ⟨rfl, hshows⟩ .nil
    | cons next more =>
      obtain ⟨w, hfirst, hshows⟩ := exists_first_spaced ht htdepth spacing.colon_isGap
        (stops_cons (.inl rfl) (spacedMembers markup spacing depth (next :: more) ++ rest))
      have htext : spacedMembers markup spacing depth ((key, t) :: next :: more) ++ rest =
          spacing.line depth ++ '"' :: (respell markup key ++ '"' :: ':' ::
            (spacing.colon ++ (t.spaced markup spacing depth ++
              ',' :: (spacedMembers markup spacing depth (next :: more) ++ rest)))) := by
        rw [spacedMembers]
        · simp
        · simp
      rw [htext, hkey, hfirst]
      exact .cons ⟨rfl, hshows⟩ (ih hmore hmoreDepth (behindMark_cons rfl _))

/-- The items of a list in front of a text are the items as they were written. -/
theorem items_spaced {ts : List Tree} (hwf : (Tree.array ts).WellFormed)
    (htree : w.tree = (Tree.array ts).respelled markup)
    (htext : (Tree.array ts).spaced markup spacing depth <+: w.text) :
    List.Forall₂ (Shows markup spacing (depth + 1)) ts w.items := by
  have hfits := w.fits.depth
  obtain ⟨rest, hrest⟩ := htext
  rw [htree, depth_respelled, Tree.depth] at hfits
  rw [Tree.respelled, respelledItems_eq_map] at htree
  rw [items, htree, ← hrest]
  cases ts with
  | nil => exact .nil
  | cons t more =>
    cases hwf with
    | array hwf =>
      refine itemsFrom_spaced hwf ?_
        (stops_gaps (spacing.line_isGap depth) (stops_cons (.inr (.inl rfl)) rest)) ?_
      · intro t ht
        have := depth_le_itemsDepth ht
        omega
      · rw [Tree.spaced]
        simpa using behindMark_cons (c := '[') rfl _

/-- The members of an object in front of a text are the members as they were written. -/
theorem members_spaced {ts : List (List Char × Tree)} (hwf : (Tree.object ts).WellFormed)
    (htree : w.tree = (Tree.object ts).respelled markup)
    (htext : (Tree.object ts).spaced markup spacing depth <+: w.text) :
    List.Forall₂ (fun m v => v.1 = respell markup m.1 ∧ v.2.Shows markup spacing (depth + 1) m.2) ts
      w.members := by
  have hfits := w.fits.depth
  obtain ⟨rest, hrest⟩ := htext
  rw [htree, depth_respelled, Tree.depth] at hfits
  rw [Tree.respelled, respelledMembers_eq_map] at htree
  rw [members, htree, ← hrest]
  cases ts with
  | nil => exact .nil
  | cons m more =>
    cases hwf with
    | object hkeys hwf =>
      refine membersFrom_spaced hwf ?_
        (stops_gaps (spacing.line_isGap depth) (stops_cons (.inr (.inr rfl)) rest)) ?_
      · intro m hm
        have := depth_le_membersDepth hm
        omega
      · rw [Tree.spaced]
        simpa using behindMark_cons (c := '\x7b') rfl _

end Written

end FlowScript.Json
