import FlowScript.Proofs.Script.Collect
import FlowScript.Proofs.Script.Names

/-!
# Openings and headers of functions

A function is called by the name in the first `def name(` of its source, while its ports come from
the first header that is complete. Openings never overlap, so a search that gives up on an opening
goes on behind its bracket, and the two readings part exactly where the first opening is not
completed to a header. Line ends of either kind give the same name.

## Main results

- `Source.openingHere?_eq_some_iff` — the shape of an opening
- `Source.header?_tail_of_openingHere?` — no opening starts inside another
- `Source.opening?_unixLines` — the line ends of a source do not matter for its openings
- `Source.header?_eq` — the search for a header, from opening to opening
- `called_function_of_signature` — which function is called when the signature names one
-/

namespace FlowScript

namespace Source

open Text

/-! ## The shape of an opening -/

theorem dropFront?_eq_some_iff {front cs rest : List Char} :
    dropFront? front cs = some rest ↔ cs = front ++ rest := by
  induction front generalizing cs with
  | nil => simp [dropFront?, eq_comm]
  | cons a front ih =>
    cases cs with
    | nil => simp [dropFront?]
    | cons c cs =>
      by_cases h : a = c
      · simp [dropFront?, h, ih]
      · simp [dropFront?, h, Ne.symm h]

theorem isSpace_not_isIdentChar {c : Char} (h : isSpace c = true) : isIdentChar c = false := by
  simp only [isSpace, Bool.or_eq_true, beq_iff_eq] at h
  obtain (((rfl | rfl) | rfl) | rfl) | rfl := h <;> decide

theorem isIdentChar_not_isSpace {c : Char} (h : isIdentChar c = true) : isSpace c = false := by
  by_contra hblank
  rw [Bool.not_eq_false] at hblank
  rw [isSpace_not_isIdentChar hblank] at h
  cases h

/-- A run of characters of one class ends where another class begins. -/
theorem takeWhile_append_stop {p : Char → Bool} {run : List Char} (rest : List Char)
    (hrun : ∀ c ∈ run, p c = true) (hstop : ∀ c, rest.head? = some c → p c = false) :
    (run ++ rest).takeWhile p = run ∧ (run ++ rest).dropWhile p = rest := by
  have hrest : rest.takeWhile p = [] ∧ rest.dropWhile p = rest := by
    cases rest with
    | nil => exact ⟨rfl, rfl⟩
    | cons c rest =>
      have hc := hstop c rfl
      simp [hc]
  rw [List.takeWhile_append_of_pos hrun, List.dropWhile_append_of_pos hrun, hrest.1, hrest.2]
  simp

/-- Neither a gap nor a bracket goes on with an identifier. -/
theorem isIdentChar_head_of_gap {gap : List Char} (inside : List Char)
    (hgap : ∀ c ∈ gap, isSpace c = true) (d : Char) (hd : (gap ++ '(' :: inside).head? = some d) :
    isIdentChar d = false := by
  cases gap with
  | nil =>
    obtain rfl : '(' = d := by simpa using hd
    decide
  | cons e gap =>
    obtain rfl : e = d := by simpa using hd
    exact isSpace_not_isIdentChar (hgap e List.mem_cons_self)

/-- An opening is `def`, a gap, an identifier, perhaps a gap, and a bracket. -/
structure Opens (cs name inside : List Char) (gap gap' : List Char) : Prop where
  text : cs = ['d', 'e', 'f'] ++ (gap ++ (name ++ (gap' ++ '(' :: inside)))
  gap_ne : gap ≠ []
  gap_blank : ∀ c ∈ gap, isSpace c = true
  start : ∃ c tail, name = c :: tail ∧ isIdentStart c = true
  word : ∀ c ∈ name, isIdentChar c = true
  gap'_blank : ∀ c ∈ gap', isSpace c = true

theorem Opens.openingHere? {cs name inside gap gap' : List Char}
    (h : Opens cs name inside gap gap') : openingHere? cs = some (name, inside) := by
  obtain ⟨c, tail, hname, hstart⟩ := h.start
  have hgap : ((gap ++ (name ++ (gap' ++ '(' :: inside))).dropWhile isSpace) =
      name ++ (gap' ++ '(' :: inside) := by
    refine (takeWhile_append_stop _ h.gap_blank ?_).2
    intro d hd
    obtain rfl : c = d := by simpa [hname] using hd
    exact isIdentChar_not_isSpace (h.word c (by simp [hname]))
  obtain ⟨htake, hdrop⟩ := takeWhile_append_stop _ h.word
    (isIdentChar_head_of_gap inside h.gap'_blank)
  have hrest : (gap' ++ '(' :: inside).dropWhile isSpace = '(' :: inside :=
    (takeWhile_append_stop _ h.gap'_blank (by simp; decide)).2
  have hlen : (name ++ (gap' ++ '(' :: inside)).length ≠
      (gap ++ (name ++ (gap' ++ '(' :: inside))).length := by
    have := List.length_pos_iff.mpr h.gap_ne
    simp only [List.length_append]
    omega
  have hdef := dropFront?_eq_some_iff.mpr h.text
  unfold Source.openingHere?
  rw [hdef]
  simp only [hgap, if_neg hlen, htake, hdrop, hrest]
  subst hname
  simp [hstart]

theorem exists_opens_of_openingHere? {cs name inside : List Char}
    (h : openingHere? cs = some (name, inside)) : ∃ gap gap', Opens cs name inside gap gap' := by
  unfold openingHere? at h
  split at h
  · cases h
  · next afterDef hdef =>
    dsimp only at h
    split at h
    · cases h
    · next hlen =>
      split at h
      · cases h
      · next c tail hnamed =>
        split at h
        · next hstart =>
          split at h
          · next inside' hrest =>
            obtain ⟨rfl, rfl⟩ := Prod.mk.inj (Option.some.inj h)
            have hsplit : ∀ (p : Char → Bool) (l : List Char), l = l.takeWhile p ++ l.dropWhile p :=
              fun p l => (List.takeWhile_append_dropWhile).symm
            refine ⟨afterDef.takeWhile isSpace,
              ((afterDef.dropWhile isSpace).dropWhile isIdentChar).takeWhile isSpace, ?_⟩
            refine ⟨?_, ?_, fun _ => List.mem_takeWhile_imp, ?_, fun _ => List.mem_takeWhile_imp,
              fun _ => List.mem_takeWhile_imp⟩
            · rw [dropFront?_eq_some_iff.mp hdef, ← hrest, ← hsplit, ← hsplit, ← hsplit]
            · intro hnil
              have := congrArg List.length (hsplit isSpace afterDef)
              rw [hnil] at this
              exact hlen (by simpa using this.symm)
            · refine ⟨c, tail.takeWhile isIdentChar, ?_, hstart⟩
              have hc : isIdentChar c = true := by simp [isIdentChar, hstart]
              rw [hnamed, List.takeWhile_cons, if_pos hc]
          · cases h
        · cases h

theorem openingHere?_eq_some_iff {cs name inside : List Char} :
    openingHere? cs = some (name, inside) ↔ ∃ gap gap', Opens cs name inside gap gap' :=
  ⟨exists_opens_of_openingHere?, fun ⟨_, _, h⟩ => h.openingHere?⟩

/-! ## Openings do not overlap -/

theorem openingHere?_eq_none_of_head {c : Char} {cs : List Char} (h : c ≠ 'd') :
    openingHere? (c :: cs) = none := by
  have hdef : dropFront? ['d', 'e', 'f'] (c :: cs) = none := by
    simp [dropFront?, Ne.symm h]
  simp [openingHere?, hdef]

/-- In front of the bracket of an opening there is none. -/
theorem Opens.first_bracket {cs name inside gap gap' : List Char} (h : Opens cs name inside gap gap') :
    '(' ∉ ['d', 'e', 'f'] ++ (gap ++ (name ++ gap')) ∧
      cs = (['d', 'e', 'f'] ++ (gap ++ (name ++ gap'))) ++ '(' :: inside := by
  refine ⟨?_, by simp [h.text]⟩
  have hgap : '(' ∉ gap := fun hmem => absurd (h.gap_blank _ hmem) (by decide)
  have hname : '(' ∉ name := fun hmem => absurd (h.word _ hmem) (by decide)
  have hgap' : '(' ∉ gap' := fun hmem => absurd (h.gap'_blank _ hmem) (by decide)
  simp [hgap, hname, hgap']

/-- Where two texts are the same and both end in a run of one class, so are the runs. -/
theorem eq_of_append_run {p : Char → Bool} {a b r s : List Char} (h : a ++ r = b ++ s)
    (hr : ∀ c ∈ r, p c = true) (hs : ∀ c ∈ s, p c = true)
    (ha : ∀ c ∈ a.getLast?, p c = false) (hb : ∀ c ∈ b.getLast?, p c = false) :
    a = b ∧ r = s := by
  have hshort : ∀ {a t : List Char}, (∀ c ∈ t, p c = true) →
      (∀ c ∈ (a ++ t).getLast?, p c = false) → t = [] := by
    intro a t ht hlast
    by_contra hne
    have hmem := List.getLast_mem hne
    have hclass := hlast (t.getLast hne) (by simp [hne, List.getLast?_eq_some_getLast])
    rw [ht _ hmem] at hclass
    cases hclass
  rcases List.append_eq_append_iff.mp h with ⟨t, rfl, rfl⟩ | ⟨t, rfl, rfl⟩
  · obtain rfl := hshort (fun c hc => hr c (List.mem_append_left s hc)) hb
    simp
  · obtain rfl := hshort (fun c hc => hs c (List.mem_append_left r hc)) ha
    simp

theorem Opens.name_ne {cs name inside gap gap' : List Char} (h : Opens cs name inside gap gap') :
    name ≠ [] := by
  obtain ⟨c, tail, rfl, -⟩ := h.start
  exact List.cons_ne_nil c tail

/-- Two openings that end at the same bracket start at the same place. -/
theorem Opens.eq_nil_of_append {front rest name name' inside gap gap' e e' : List Char}
    (h : Opens rest name inside gap gap') (h' : Opens (front ++ rest) name' inside e e') :
    front = [] := by
  have hword : ∀ {a word : List Char}, word ≠ [] → (∀ c ∈ word, isIdentChar c = true) →
      ∀ c ∈ (a ++ word).getLast?, isSpace c = false := by
    intro a word hne hword c hc
    rw [List.getLast?_append_of_ne_nil _ hne] at hc
    exact isIdentChar_not_isSpace (hword c (List.mem_of_getLast? hc))
  have hgap : ∀ {a gap : List Char}, gap ≠ [] → (∀ c ∈ gap, isSpace c = true) →
      ∀ c ∈ (a ++ gap).getLast?, isIdentChar c = false := by
    intro a gap hne hgap c hc
    rw [List.getLast?_append_of_ne_nil _ hne] at hc
    exact isSpace_not_isIdentChar (hgap c (List.mem_of_getLast? hc))
  have hdef : ∀ c ∈ ['d', 'e', 'f'], isIdentChar c = true := List.all_eq_true.mp (by decide)
  have htext : (((front ++ ['d', 'e', 'f']) ++ gap) ++ name) ++ gap' =
      ((([] ++ ['d', 'e', 'f']) ++ e) ++ name') ++ e' := by
    have hbracket : ((((front ++ ['d', 'e', 'f']) ++ gap) ++ name) ++ gap') ++ '(' :: inside =
        (((([] ++ ['d', 'e', 'f']) ++ e) ++ name') ++ e') ++ '(' :: inside := by
      simpa [h.text] using h'.text
    exact List.append_cancel_right hbracket
  -- read from the end: a gap, the name, a gap, and `def`
  obtain ⟨htext, -⟩ := eq_of_append_run htext h.gap'_blank h'.gap'_blank (hword h.name_ne h.word)
    (hword h'.name_ne h'.word)
  obtain ⟨htext, -⟩ := eq_of_append_run htext h.word h'.word (hgap h.gap_ne h.gap_blank)
    (hgap h'.gap_ne h'.gap_blank)
  obtain ⟨htext, -⟩ := eq_of_append_run htext h.gap_blank h'.gap_blank (hword (by simp) hdef)
    (hword (by simp) hdef)
  exact List.append_cancel_right htext

/-- A front where no opening starts is passed over. -/
theorem header?_append_of_none {front rest : List Char}
    (h : ∀ a b, front = a ++ b → b ≠ [] → openingHere? (b ++ rest) = none) :
    header? (front ++ rest) = header? rest := by
  induction front with
  | nil => rfl
  | cons c front ih =>
    have hhere := h [] (c :: front) rfl (by simp)
    rw [List.cons_append] at hhere
    rw [List.cons_append, header?, hhere]
    exact ih (fun a b hab hb => h (c :: a) b (by rw [hab, List.cons_append]) hb)

/-- No opening starts inside another, so a search that gives up on one goes on behind its bracket. -/
theorem header?_tail_of_openingHere? {c : Char} {cs name inside : List Char}
    (h : openingHere? (c :: cs) = some (name, inside)) : header? cs = header? inside := by
  obtain ⟨gap, gap', ho⟩ := exists_opens_of_openingHere? h
  obtain ⟨hfree, htext⟩ := ho.first_bracket
  obtain ⟨rfl, rfl⟩ : c = 'd' ∧ cs = ((['e', 'f'] ++ (gap ++ (name ++ gap'))) ++ ['(']) ++ inside := by
    simpa using htext
  rw [header?_append_of_none]
  intro a b hab hb
  rw [Option.eq_none_iff_forall_ne_some]
  rintro ⟨name', inside'⟩ hsome
  obtain ⟨e, e', ho'⟩ := exists_opens_of_openingHere? hsome
  obtain ⟨hfree', htext'⟩ := ho'.first_bracket
  obtain ⟨b', d, rfl⟩ : ∃ b' d, b = b' ++ [d] := ⟨_, _, (List.dropLast_append_getLast hb).symm⟩
  obtain ⟨hfront, hd⟩ := List.append_inj' (hab.trans (List.append_assoc a b' [d]).symm) rfl
  obtain rfl := (List.cons.inj hd).1
  have hback : '(' ∉ b' := by
    intro hmem
    have hfront' : '(' ∈ ['e', 'f'] ++ (gap ++ (name ++ gap')) :=
      hfront ▸ List.mem_append_right a hmem
    exact hfree (List.mem_cons_of_mem 'd' hfront')
  -- both end at the same bracket, so both start at the same place
  rw [List.append_assoc] at htext'
  obtain ⟨-, rfl⟩ := append_sep_inj hback hfree' htext'
  rw [hab, List.append_assoc] at ho
  exact List.cons_ne_nil _ a (ho'.eq_nil_of_append ho)

/-- The search for a header, from opening to opening: an opening whose parameter list does not close
ends it, and one that is not completed sends it on behind the bracket. -/
theorem header?_eq (cs : List Char) :
    header? cs =
      match opening? cs with
      | none => none
      | some (first, inside) =>
        match closing? 0 .outside inside with
        | none => none
        | some (params, rest) =>
          if endsHeader rest then some (first, params) else header? inside := by
  induction cs with
  | nil => rfl
  | cons c cs ih =>
    rw [header?, opening?]
    cases hhere : openingHere? (c :: cs) with
    | none => exact ih
    | some found =>
      obtain ⟨name, inside⟩ := found
      have htail : header? cs = header? inside := header?_tail_of_openingHere? hhere
      cases hclosed : closing? 0 .outside inside with
      | none => simp [hclosed]
      | some closed => simp [hclosed, htail]

/-! ## Line ends -/

theorem unixLines_cons_of_ne {c : Char} (h : c ≠ '\r') (cs : List Char) :
    unixLines (c :: cs) = c :: unixLines cs := by
  cases cs with
  | nil => rfl
  | cons d cs => simp [unixLines, h]

/-- The first character stays, except that a line feed takes the place of a pair. -/
theorem exists_unixLines_cons (c : Char) (cs : List Char) :
    ∃ d rest, unixLines (c :: cs) = d :: rest ∧ (d = c ∨ (c = '\r' ∧ d = '\n')) := by
  cases cs with
  | nil => exact ⟨c, [], rfl, .inl rfl⟩
  | cons e cs =>
    by_cases h : c = '\r' ∧ e = '\n'
    · exact ⟨'\n', unixLines cs, by simp [unixLines, h.1, h.2], .inr ⟨h.1, rfl⟩⟩
    · exact ⟨c, unixLines (e :: cs), by simp only [unixLines]; simp [h], .inl rfl⟩

theorem dropFront?_unixLines {front : List Char} (hr : '\r' ∉ front) (hn : '\n' ∉ front)
    (cs : List Char) : dropFront? front (unixLines cs) = (dropFront? front cs).map unixLines := by
  induction front generalizing cs with
  | nil => rfl
  | cons a front ih =>
    have ha : '\r' ≠ a ∧ '\n' ≠ a := by simp_all
    cases cs with
    | nil => rfl
    | cons c cs =>
      by_cases hc : c = '\r'
      · obtain ⟨d, rest, hd, hdc⟩ := exists_unixLines_cons c cs
        have hda : a ≠ d := by
          rcases hdc with rfl | ⟨-, rfl⟩
          · exact hc ▸ ha.1.symm
          · exact ha.2.symm
        rw [hd]
        simp [dropFront?, hda, hc, ha.1.symm]
      · rw [unixLines_cons_of_ne hc]
        by_cases hac : a = c
        · simp [dropFront?, hac, ih (by simp_all) (by simp_all)]
        · simp [dropFront?, hac]

theorem dropWhile_unixLines {p : Char → Bool} (hp : p '\r' = p '\n') (cs : List Char) :
    (unixLines cs).dropWhile p = unixLines (cs.dropWhile p) := by
  fun_induction unixLines cs with
  | case1 => rfl
  | case2 c => by_cases h : p c <;> simp [h, unixLines]
  | case3 c d cs h ih =>
    obtain ⟨rfl, rfl⟩ : c = '\r' ∧ d = '\n' := by simpa using h
    by_cases hn : p '\n'
    · simpa [hn, hp] using ih
    · simp [hn, hp, unixLines]
  | case4 c d cs h ih =>
    by_cases hc : p c
    · simpa [hc] using ih
    · simp only [List.dropWhile_cons, hc, if_false, Bool.false_eq_true]
      rw [unixLines, if_neg h]

theorem takeWhile_unixLines {p : Char → Bool} (hr : p '\r' = false) (hn : p '\n' = false)
    (cs : List Char) : (unixLines cs).takeWhile p = cs.takeWhile p := by
  fun_induction unixLines cs with
  | case1 => rfl
  | case2 c => rfl
  | case3 c d cs h ih =>
    obtain ⟨rfl, rfl⟩ : c = '\r' ∧ d = '\n' := by simpa using h
    simp [hr, hn]
  | case4 c d cs h ih => rw [List.takeWhile_cons, List.takeWhile_cons, ih]

theorem length_dropWhile_eq_iff {p : Char → Bool} (cs : List Char) :
    (cs.dropWhile p).length = cs.length ↔ ∀ c, cs.head? = some c → p c = false := by
  cases cs with
  | nil => simp
  | cons c cs =>
    have hle := (List.dropWhile_sublist p (l := cs)).length_le
    by_cases hc : p c
    · simp only [List.dropWhile_cons, hc, if_true, List.length_cons, List.head?_cons]
      constructor
      · intro h
        omega
      · intro h
        have := h c rfl
        rw [hc] at this
        cases this
    · simp [hc]

/-- An opening is one with line ends of either kind. -/
theorem openingHere?_unixLines (cs : List Char) :
    openingHere? (unixLines cs) = (openingHere? cs).map (fun (name, inside) =>
      (name, unixLines inside)) := by
  unfold openingHere?
  rw [dropFront?_unixLines (by decide) (by decide)]
  cases dropFront? ['d', 'e', 'f'] cs with
  | none => rfl
  | some afterDef =>
    have hlen : ((unixLines afterDef).dropWhile isSpace).length = (unixLines afterDef).length ↔
        (afterDef.dropWhile isSpace).length = afterDef.length := by
      rw [length_dropWhile_eq_iff, length_dropWhile_eq_iff]
      cases afterDef with
      | nil => rfl
      | cons c rest =>
        obtain ⟨d, rest', hd, rfl | ⟨rfl, rfl⟩⟩ := exists_unixLines_cons c rest
        · simp [hd]
        · rw [hd]
          simp; decide
    simp only [Option.map_some, hlen]
    rw [dropWhile_unixLines (by decide)]
    by_cases hshort : (afterDef.dropWhile isSpace).length = afterDef.length
    · simp only [hshort, if_true, Option.map_none]
    · simp only [hshort, if_false]
      cases hnamed : afterDef.dropWhile isSpace with
      | nil => rfl
      | cons c tail =>
        have hc : c ≠ '\r' := by
          rintro rfl
          have hhead := List.head?_eq_some_iff.mpr ⟨_, hnamed⟩
          exact absurd (Text.not_of_mem_head?_dropWhile hhead) (by decide)
        rw [unixLines_cons_of_ne hc]
        by_cases hstart : isIdentStart c
        · simp only [hstart, if_true]
          rw [← unixLines_cons_of_ne hc, dropWhile_unixLines (by decide),
            dropWhile_unixLines (by decide), takeWhile_unixLines (by decide) (by decide)]
          cases hrest : ((c :: tail).dropWhile isIdentChar).dropWhile isSpace with
          | nil => rfl
          | cons e inside =>
            have he : e ≠ '\r' := by
              rintro rfl
              have hhead := List.head?_eq_some_iff.mpr ⟨_, hrest⟩
              exact absurd (Text.not_of_mem_head?_dropWhile hhead) (by decide)
            rw [unixLines_cons_of_ne he]
            by_cases hbracket : e = '('
            · rw [hbracket]
              rfl
            · split
              · next h => exact absurd (List.cons.inj h).1 hbracket
              · split
                · next h => exact absurd (List.cons.inj h).1 hbracket
                · rfl
        · simp [hstart]

/-- The first opening of a source does not depend on its line ends. -/
theorem opening?_unixLines (cs : List Char) :
    opening? (unixLines cs) = (opening? cs).map (fun (name, inside) =>
      (name, unixLines inside)) := by
  fun_induction unixLines cs with
  | case1 => rfl
  | case2 c =>
    have hnone : openingHere? [c] = none := by
      by_cases h : 'd' = c <;> simp [openingHere?, dropFront?, h]
    simp [opening?, hnone]
  | case3 c d cs h ih =>
    obtain ⟨rfl, rfl⟩ : c = '\r' ∧ d = '\n' := by simpa using h
    rw [opening?, openingHere?_eq_none_of_head (by decide), opening?,
      openingHere?_eq_none_of_head (by decide), opening?, openingHere?_eq_none_of_head (by decide)]
    exact ih
  | case4 c d cs h ih =>
    have hhere := openingHere?_unixLines (c :: d :: cs)
    rw [unixLines, if_neg h] at hhere
    rw [opening?, opening?, hhere]
    cases openingHere? (c :: d :: cs) with
    | none => exact ih
    | some found => rfl

theorem mem_of_opening? {cs : List Char} {found : List Char × List Char}
    (h : opening? cs = some found) : 'd' ∈ cs := by
  induction cs with
  | nil => cases h
  | cons c cs ih =>
    rw [opening?] at h
    cases hhere : openingHere? (c :: cs) with
    | none =>
      rw [hhere] at h
      exact List.mem_cons_of_mem c (ih h)
    | some here =>
      obtain ⟨gap, gap', ho⟩ := exists_opens_of_openingHere? hhere
      rw [ho.text]
      exact List.mem_cons_self

/-- The first opening of a text is completed to a header. -/
def opensWithHeader (cs : List Char) : Bool :=
  match opening? cs with
  | none => false
  | some (_, inside) =>
    match closing? 0 .outside inside with
    | none => false
    | some (_, rest) => endsHeader rest

/-- What the first opening of a text leads to when there is a header at all. -/
theorem header?_cases {cs : List Char} {found : List Char × List Char}
    (h : header? cs = some found) :
    ∃ first inside, opening? cs = some (first, inside) ∧
      (opensWithHeader cs = true → found.1 = first) ∧
      (opensWithHeader cs = false → header? inside = some found) := by
  rw [header?_eq] at h
  cases ho : opening? cs with
  | none =>
    rw [ho] at h
    cases h
  | some opened =>
    obtain ⟨first, inside⟩ := opened
    simp only [ho] at h
    refine ⟨first, inside, rfl, ?_⟩
    cases hc : closing? 0 .outside inside with
    | none =>
      rw [hc] at h
      cases h
    | some closed =>
      simp only [hc] at h
      simp only [opensWithHeader, ho, hc]
      cases hend : endsHeader closed.2 with
      | true =>
        rw [hend, if_pos rfl] at h
        obtain rfl := Option.some.inj h
        exact ⟨fun _ => rfl, fun hf => (by cases hf)⟩
      | false =>
        rw [hend, if_neg (by simp)] at h
        exact ⟨fun hf => (by cases hf), fun _ => h⟩

end Source

namespace Script

/-- A node whose code has an opening calls the function of the first one, with line ends of either
kind. -/
theorem Placed.call?_of_opening? {p : Placed} {data : FunctionData}
    (hdata : p.node.function? = some data) {first inside : List Char}
    (h : Source.opening? data.code.toList = some (first, inside)) : p.call? = some (String.ofList first) := by
  have hblank : isBlankText data.code = false := by
    have hd := Source.mem_of_opening? h
    simp only [isBlankText, Text.allBlank, List.all_eq_false]
    exact ⟨'d', hd, by decide⟩
  simp [Placed.call?, hdata, hblank, functionName?, Source.opening?_unixLines, h]

end Script

open Source Script

/-- When the signature of a source names a function, a function is called: the one in the first
opening of the source. It is the function of the signature if that opening is completed to a header;
otherwise the signature is read from the text behind the opening. -/
theorem called_function_of_signature (code : String) (h : (Signature.ofSource code).name ≠ "") :
    ∃ first inside, opening? code.toList = some (first, inside) ∧
      functionName? code = some (String.ofList first) ∧
      (∀ (p : Placed) (data : FunctionData), p.node.function? = some data → data.code = code →
        p.call? = functionName? code) ∧
      (opensWithHeader code.toList = true →
        functionName? code = some (Signature.ofSource code).name) ∧
      (opensWithHeader code.toList = false →
        (Signature.ofSource code).name = (Signature.ofSource (String.ofList inside)).name ∧
        (Signature.ofSource code).inputs = (Signature.ofSource (String.ofList inside)).inputs) := by
  cases hh : header? code.toList with
  | none =>
    simp [Signature.ofSource, hh] at h
  | some found =>
    obtain ⟨first, inside, ho, hfirst, hbehind⟩ := header?_cases hh
    have hname : functionName? code = some (String.ofList first) := by simp [functionName?, ho]
    refine ⟨first, inside, ho, hname, ?_, ?_, ?_⟩
    · rintro p data hdata rfl
      rw [hname, Placed.call?_of_opening? hdata ho]
    · intro hc
      simp [hname, Signature.ofSource, hh, hfirst hc]
    · intro hc
      simp [Signature.ofSource, hh, hbehind hc]

/-- A commented opening in front of the header. -/
def remarkedSource : String :=
  "# def old(x) is gone\ndef new(y):\n    return y"

/-- The function that is called is the one in the comment; the signature is that of the header. -/
theorem remarkedSource_calls_first_opening :
    (Signature.ofSource remarkedSource).name ≠ "" ∧
    ∃ first inside, opening? remarkedSource.toList = some (first, inside) ∧
      functionName? remarkedSource = some (String.ofList first) ∧
      (∀ (p : Placed) (data : FunctionData), p.node.function? = some data →
        data.code = remarkedSource → p.call? = functionName? remarkedSource) ∧
      (opensWithHeader remarkedSource.toList = true →
        functionName? remarkedSource = some (Signature.ofSource remarkedSource).name) ∧
      (opensWithHeader remarkedSource.toList = false →
        (Signature.ofSource remarkedSource).name =
          (Signature.ofSource (String.ofList inside)).name ∧
        (Signature.ofSource remarkedSource).inputs =
          (Signature.ofSource (String.ofList inside)).inputs) := by
  have h : (Signature.ofSource remarkedSource).name ≠ "" := by decide +kernel
  exact ⟨h, called_function_of_signature remarkedSource h⟩

/-- A signature may name another function than the one that is called. -/
theorem signature_names_other_function :
    ¬ ∀ code : String, (Signature.ofSource code).name ≠ "" →
      functionName? code = some (Signature.ofSource code).name := by
  intro h
  exact absurd (h remarkedSource (by decide +kernel)) (by decide +kernel)

end FlowScript
