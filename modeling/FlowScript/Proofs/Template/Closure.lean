import FlowScript.Template.Catalog
import Mathlib.Data.List.Perm.Subperm
import Mathlib.Logic.Relation
import Mathlib.Tactic.Common

/-!
# The templates that a template needs

The walk over the needs of a template, as a recursion without a bound on its depth, and what it
yields. The names that are under way form a path, from the latest one back to the start; a need that
is met again on it closes a cycle. The finished names only need each other, and each of them comes
after those that it needs. So the walk either ends with an error that shows a missing template or a
cycle, or with everything that can be reached.

## Main definitions

- `Catalog.Needs`, `Catalog.Reach`, `Catalog.OnCycle` — the needs of templates as a graph
- `Catalog.Follows` — the walk, told by its steps
- `Catalog.Settled` — finished names need earlier ones only
- `Catalog.Explains` — an error shows a missing template or a cycle

## Main results

- `Catalog.follows_foldlM` — the walk of bounded depth takes the steps of the walk without a bound
- `Catalog.Follows.grown`, `Catalog.Follows.explains` — what a walk leaves behind
- `Catalog.requires_closure` — the closure of the needs of a template
-/

namespace FlowScript.Catalog

open Relation

variable {c : Catalog} {t d : Template} {a b name need : String}

/-! ## The graph of needs -/

/-- A template needs another one, which may be missing. -/
def Needs (c : Catalog) (name need : String) : Prop :=
  ∃ t, c.get? name = some t ∧ need ∈ t.requires

/-- A chain of zero or more needs leads from one name to another. -/
def Reach (c : Catalog) (name need : String) : Prop :=
  ReflTransGen c.Needs name need

/-- A chain of one or more needs leads back to a name. -/
def OnCycle (c : Catalog) (name : String) : Prop :=
  TransGen c.Needs name name

theorem name_of_get? (h : c.get? name = some t) : t.name = name := by
  simpa using List.find?_some h

theorem mem_of_get? (h : c.get? name = some t) : name ∈ c.templates.map (·.name) :=
  name_of_get? h ▸ List.mem_map_of_mem (List.mem_of_find?_eq_some h)

/-! ## The walk -/

/-- The needs of the template `t` are gone through while the names in `underWay`, its own one first,
are being visited. A need that is neither under way nor finished is visited before the next one. -/
inductive Follows (c : Catalog) : List String → Template → List String → List String →
    Except TemplateError (List String) → Prop
  | done {underWay finished : List String} {t : Template} : Follows c underWay t [] finished (.ok finished)
  | missing {underWay rest finished : List String} {t : Template} {need : String}
      (hneed : c.get? need = none) :
      Follows c underWay t (need :: rest) finished (.error (.unknownNeed t.name need))
  | again {underWay rest finished : List String} {t d : Template} {need : String}
      (hneed : c.get? need = some d) (hway : need ∈ underWay) :
      Follows c underWay t (need :: rest) finished (.error (.selfDependent need))
  | known {underWay rest finished : List String} {t d : Template} {need : String}
      {r : Except TemplateError (List String)}
      (hneed : c.get? need = some d) (hway : need ∉ underWay) (hfinished : need ∈ finished)
      (more : Follows c underWay t rest finished r) : Follows c underWay t (need :: rest) finished r
  | new {underWay rest finished after : List String} {t d : Template} {need : String}
      {r : Except TemplateError (List String)}
      (hneed : c.get? need = some d) (hway : need ∉ underWay) (hfinished : need ∉ finished)
      (visit : Follows c (need :: underWay) d d.requires finished (.ok after))
      (more : Follows c underWay t rest (need :: after) r) :
      Follows c underWay t (need :: rest) finished r
  | failed {underWay rest finished : List String} {t d : Template} {need : String}
      {e : TemplateError}
      (hneed : c.get? need = some d) (hway : need ∉ underWay) (hfinished : need ∉ finished)
      (visit : Follows c (need :: underWay) d d.requires finished (.error e)) :
      Follows c underWay t (need :: rest) finished (.error e)

/-- Visits a need of `t` within a bound on the depth. -/
def visitNeed (c : Catalog) (depth : Nat) (underWay : List String) (t : Template)
    (finished : List String) (need : String) : Except TemplateError (List String) :=
  (c.get? need).elim (.error (.unknownNeed t.name need)) (c.visit depth underWay finished)

theorem visit_succ (c : Catalog) (depth : Nat) (underWay finished : List String) (t : Template) :
    c.visit (depth + 1) underWay finished t =
      if t.name ∈ underWay then .error (.selfDependent t.name)
      else if t.name ∈ finished then .ok finished
      else (t.requires.foldlM (c.visitNeed depth (t.name :: underWay) t) finished).map
        (t.name :: ·) := by
  have hvisits : ∀ f : List String → String → Except TemplateError (List String),
      (∀ finished need, f finished need = c.visitNeed depth (t.name :: underWay) t finished need) →
      (t.requires.foldlM f finished >>= fun finished => pure (t.name :: finished)) =
        (t.requires.foldlM (c.visitNeed depth (t.name :: underWay) t) finished).map
          (t.name :: ·) := by
    intro f hf
    obtain rfl : f = c.visitNeed depth (t.name :: underWay) t := funext₂ hf
    cases t.requires.foldlM (c.visitNeed depth (t.name :: underWay) t) finished <;> rfl
  rw [visit]
  simp only [List.contains_iff_mem]
  congr 2
  refine hvisits _ ?_
  intro finished need
  rw [visitNeed]
  cases c.get? need <;> rfl

/-- The walk within a bound on its depth takes the steps of the walk without a bound, if the bound
covers the names that are not under way. -/
theorem follows_foldlM {depth : Nat} {underWay needs finished : List String}
    (hnodup : underWay.Nodup) (hknown : underWay ⊆ c.templates.map (·.name))
    (hdepth : c.templates.length < underWay.length + depth) :
    c.Follows underWay t needs finished (needs.foldlM (c.visitNeed depth underWay t) finished) := by
  induction depth generalizing underWay t needs finished with
  | zero =>
    -- the names under way are different names of templates
    have hle := (List.subperm_of_subset hnodup hknown).length_le
    rw [List.length_map] at hle
    omega
  | succ depth ih =>
    induction needs generalizing finished with
    | nil => exact .done
    | cons need rest ihrest =>
      cases hneed : c.get? need with
      | none =>
        have hfirst : c.visitNeed (depth + 1) underWay t finished need =
            .error (.unknownNeed t.name need) := by rw [visitNeed, hneed]; rfl
        rw [List.foldlM_cons, hfirst]
        exact .missing hneed
      | some d =>
        have hname := name_of_get? hneed
        have hfirst : c.visitNeed (depth + 1) underWay t finished need =
            c.visit (depth + 1) underWay finished d := by rw [visitNeed, hneed]; rfl
        rw [List.foldlM_cons, hfirst, visit_succ, hname]
        by_cases hway : need ∈ underWay
        · rw [if_pos hway]
          exact .again hneed hway
        rw [if_neg hway]
        by_cases hfinished : need ∈ finished
        · rw [if_pos hfinished]
          exact .known hneed hway hfinished ihrest
        rw [if_neg hfinished]
        have hvisit : c.Follows (need :: underWay) d d.requires finished
            (d.requires.foldlM (c.visitNeed depth (need :: underWay) d) finished) := by
          refine ih (List.nodup_cons.mpr ⟨hway, hnodup⟩)
            (List.cons_subset.mpr ⟨mem_of_get? hneed, hknown⟩) ?_
          rw [List.length_cons]
          omega
        cases hafter : d.requires.foldlM (c.visitNeed depth (need :: underWay) d) finished with
        | error e => exact .failed hneed hway hfinished (hafter ▸ hvisit)
        | ok after => exact .new hneed hway hfinished (hafter ▸ hvisit) ihrest

/-! ## What a walk leaves behind -/

/-- Different names of templates, each of which needs only those behind it. -/
inductive Settled (c : Catalog) : List String → Prop
  | nil : Settled c []
  | cons {finished : List String} {name : String} {t : Template} (ht : c.get? name = some t)
      (hnew : name ∉ finished) (hneeds : ∀ need ∈ t.requires, need ∈ finished)
      (h : Settled c finished) : Settled c (name :: finished)

namespace Settled

variable {finished : List String}

theorem nodup (h : c.Settled finished) : finished.Nodup := by
  induction h with
  | nil => exact .nil
  | cons _ hnew _ _ ih => exact List.nodup_cons.mpr ⟨hnew, ih⟩

theorem exists_template (h : c.Settled finished) (hname : name ∈ finished) :
    ∃ t, c.get? name = some t := by
  induction h with
  | nil => cases hname
  | cons ht _ _ _ ih =>
    rcases List.mem_cons.mp hname with rfl | hname
    · exact ⟨_, ht⟩
    · exact ih hname

/-- What a settled name needs comes before it. -/
theorem needs_earlier {later earlier : List String} (h : c.Settled (later ++ name :: earlier))
    (hneeds : c.Needs name need) : need ∈ earlier := by
  induction later with
  | nil =>
    obtain ⟨t, ht, hneed⟩ := hneeds
    cases h with
    | cons ht' _ hall _ =>
      obtain rfl := Option.some.inj (ht.symm.trans ht')
      exact hall need hneed
  | cons _ later ih =>
    cases h with
    | cons _ _ _ h => exact ih h

theorem closed (h : c.Settled finished) (hname : name ∈ finished) (hneeds : c.Needs name need) :
    need ∈ finished := by
  obtain ⟨later, earlier, rfl⟩ := List.append_of_mem hname
  exact List.mem_append_right _ (List.mem_cons_of_mem name (h.needs_earlier hneeds))

theorem reach_closed (h : c.Settled finished) (hname : name ∈ finished)
    (hreach : c.Reach name need) : need ∈ finished := by
  induction hreach with
  | refl => exact hname
  | tail _ hneeds ih => exact h.closed ih hneeds

/-- No settled name is on a cycle: its needs only reach names behind it. -/
theorem not_onCycle (h : c.Settled finished) (hname : name ∈ finished) : ¬ c.OnCycle name := by
  induction h with
  | nil => cases hname
  | @cons finished first t ht hnew hneeds h ih =>
    rcases List.mem_cons.mp hname with rfl | hname
    · intro hcycle
      obtain ⟨next, ⟨t', ht', hnext⟩, hback⟩ := TransGen.head'_iff.mp hcycle
      obtain rfl := Option.some.inj (ht.symm.trans ht')
      exact hnew (h.reach_closed (hneeds next hnext) hback)
    · exact ih hname

end Settled

/-- More names are finished: the given needs are, and all that is new can be reached from them and is
not under way. -/
structure Grown (c : Catalog) (underWay needs finished after : List String) : Prop where
  settled : c.Settled after
  kept : finished ⊆ after
  covered : needs ⊆ after
  fresh : ∀ name ∈ after, name ∉ finished → name ∉ underWay ∧ ∃ need ∈ needs, c.Reach need name

/-- A walk that succeeds has finished all needs and everything that they reach. -/
theorem Follows.grown {underWay needs finished after : List String}
    (h : c.Follows underWay t needs finished (.ok after)) (hsettled : c.Settled finished)
    (hapart : ∀ name ∈ underWay, name ∉ finished) : c.Grown underWay needs finished after := by
  generalize hr : Except.ok after = r at h
  induction h generalizing after with
  | done =>
    obtain rfl := Except.ok.inj hr
    exact ⟨hsettled, List.Subset.refl _, List.nil_subset _, fun _ h h' => absurd h h'⟩
  | missing => cases hr
  | again => cases hr
  | failed => cases hr
  | known hneed hway hfinished _ ih =>
    have hmore := ih hsettled hapart hr
    refine ⟨hmore.settled, hmore.kept, List.cons_subset.mpr ⟨hmore.kept hfinished, hmore.covered⟩, ?_⟩
    intro name hname hnew
    obtain ⟨hout, first, hfirst, hreach⟩ := hmore.fresh name hname hnew
    exact ⟨hout, first, List.mem_cons_of_mem _ hfirst, hreach⟩
  | @new underWay rest finished inner t d need r hneed hway hfinished _ _ ihvisit ihmore =>
    have hvisit : c.Grown (need :: underWay) d.requires finished inner := by
      refine ihvisit hsettled ?_ rfl
      exact List.forall_mem_cons.mpr ⟨hfinished, hapart⟩
    -- the need itself was under way, so the visit did not finish it
    have hself : need ∉ inner := fun hmem =>
      (hvisit.fresh need hmem hfinished).1 List.mem_cons_self
    have hinner : c.Settled (need :: inner) :=
      .cons hneed hself (fun n hn => hvisit.covered hn) hvisit.settled
    have happart : ∀ name ∈ underWay, name ∉ need :: inner := by
      intro name hname hmem
      rcases List.mem_cons.mp hmem with rfl | hmem
      · exact hway hname
      · exact (hvisit.fresh name hmem (hapart name hname)).1 (List.mem_cons_of_mem need hname)
    have hmore := ihmore hinner happart hr
    have hkept : inner ⊆ after := fun n hn => hmore.kept (List.mem_cons_of_mem need hn)
    refine ⟨hmore.settled, fun n hn => hkept (hvisit.kept hn),
      List.cons_subset.mpr ⟨hmore.kept List.mem_cons_self, hmore.covered⟩, ?_⟩
    intro name hname hnew
    by_cases hold : name ∈ need :: inner
    · rcases List.mem_cons.mp hold with rfl | hold
      · exact ⟨hway, name, List.mem_cons_self, .refl⟩
      · obtain ⟨hout, first, hfirst, hreach⟩ := hvisit.fresh name hold hnew
        exact ⟨fun hmem => hout (List.mem_cons_of_mem need hmem), need, List.mem_cons_self,
          .head ⟨d, hneed, hfirst⟩ hreach⟩
    · obtain ⟨hout, first, hfirst, hreach⟩ := hmore.fresh name hname hold
      exact ⟨hout, first, List.mem_cons_of_mem need hfirst, hreach⟩

/-- An error shows, among what can be reached from a name, a need that is missing or a cycle. -/
def Explains (c : Catalog) (name : String) : TemplateError → Prop
  | .unknown _ => False
  | .unknownNeed owner need => c.Reach name owner ∧ c.Needs owner need ∧ c.get? need = none
  | .selfDependent a => c.Reach name a ∧ c.OnCycle a

theorem Explains.head {e : TemplateError} (hneeds : c.Needs name need) (h : c.Explains need e) :
    c.Explains name e := by
  cases e with
  | unknown _ => exact h
  | unknownNeed owner missing => exact ⟨.head hneeds h.1, h.2⟩
  | selfDependent a => exact ⟨.head hneeds h.1, h.2⟩

/-- A walk that fails has found a missing template or a cycle. -/
theorem Follows.explains {underWay needs finished : List String} {e : TemplateError}
    (h : c.Follows underWay t needs finished (.error e)) (ht : c.get? t.name = some t)
    (hneeds : needs ⊆ t.requires) (hway : ∀ name ∈ underWay, c.Reach name t.name) :
    c.Explains t.name e := by
  generalize hr : Except.error e = r at h
  induction h with
  | done => cases hr
  | missing hneed =>
    obtain rfl := Except.error.inj hr
    exact ⟨.refl, ⟨_, ht, hneeds List.mem_cons_self⟩, hneed⟩
  | @again underWay _ _ t d need hneed hmem =>
    obtain rfl := Except.error.inj hr
    have hstep : c.Needs t.name need := ⟨t, ht, hneeds List.mem_cons_self⟩
    exact ⟨.single hstep, .tail' (hway need hmem) hstep⟩
  | known _ _ _ _ ih => exact ih ht (fun n hn => hneeds (List.mem_cons_of_mem _ hn)) hway hr
  | new _ _ _ _ _ _ ihmore =>
    exact ihmore ht (fun n hn => hneeds (List.mem_cons_of_mem _ hn)) hway hr
  | @failed underWay _ _ t d need e' hneed _ _ _ ih =>
    have hstep : c.Needs t.name need := ⟨t, ht, hneeds List.mem_cons_self⟩
    have hname := name_of_get? hneed
    refine .head hstep (hname ▸ ih (hname.symm ▸ hneed) (List.Subset.refl _) ?_ hr)
    rw [hname]
    exact List.forall_mem_cons.mpr ⟨.refl, fun n hn => (hway n hn).tail hstep⟩

/-! ## The closure -/

theorem requires_eq (h : c.get? name = some t) :
    c.requires t = (t.requires.foldlM (c.visitNeed (c.templates.length + 1) [name] t) []).map
      List.reverse := by
  rw [requires, visit_succ, if_neg List.not_mem_nil, if_neg List.not_mem_nil, name_of_get? h]
  cases t.requires.foldlM (c.visitNeed (c.templates.length + 1) [name] t) [] <;> rfl

theorem follows_requires (h : c.get? name = some t) :
    ∃ r, c.Follows [name] t t.requires [] r ∧ c.requires t = r.map List.reverse := by
  refine ⟨_, follows_foldlM (by simp) ?_ ?_, requires_eq h⟩
  · exact List.cons_subset.mpr ⟨mem_of_get? h, List.nil_subset _⟩
  · rw [List.length_singleton]
    omega

/-- Behind the start, a walk that succeeds has finished what the start reaches. -/
theorem Follows.settled {after : List String} (h : c.get? name = some t)
    (hwalk : c.Follows [name] t t.requires [] (.ok after)) :
    c.Settled (name :: after) ∧ ∀ n, n ∈ after ↔ n ≠ name ∧ c.Reach name n := by
  have hgrown := hwalk.grown .nil (fun _ _ => List.not_mem_nil)
  have hfresh := fun n (hn : n ∈ after) => hgrown.fresh n hn List.not_mem_nil
  have hself : name ∉ after := fun hmem => (hfresh name hmem).1 List.mem_cons_self
  have hsettled : c.Settled (name :: after) :=
    .cons h hself (fun n hn => hgrown.covered hn) hgrown.settled
  refine ⟨hsettled, fun n => ⟨?_, ?_⟩⟩
  · intro hn
    obtain ⟨-, first, hfirst, hreach⟩ := hfresh n hn
    exact ⟨ne_of_mem_of_not_mem hn hself, .head ⟨t, h, hfirst⟩ hreach⟩
  · rintro ⟨hne, hreach⟩
    exact List.mem_of_ne_of_mem hne (hsettled.reach_closed List.mem_cons_self hreach)

/-- Everything that a template needs, directly or not. The walk over its needs ends. It fails exactly
if a missing template or a cycle can be reached, and the error shows one of them. Otherwise it lists
each template that can be reached, but not the first one itself, once, and after all those that it
needs. -/
theorem requires_closure {c : Catalog} {name : String} {t : Template} (h : c.get? name = some t) :
    (∃ r, c.Follows [name] t t.requires [] r ∧ c.requires t = r.map List.reverse) ∧
    ((∃ e, c.requires t = .error e) ↔
      (∃ need, c.Reach name need ∧ c.get? need = none) ∨ ∃ n, c.Reach name n ∧ c.OnCycle n) ∧
    (∀ e, c.requires t = .error e → c.Explains name e) ∧
    ∀ names, c.requires t = .ok names →
      names.Nodup ∧
      (∀ n, n ∈ names ↔ n ≠ name ∧ (∃ u, c.get? n = some u) ∧ c.Reach name n) ∧
      ∀ before n after, names = before ++ n :: after → ∀ u, c.get? n = some u →
        ∀ need ∈ u.requires, need ∈ before := by
  obtain ⟨r, hwalk, hrequires⟩ := follows_requires h
  refine ⟨⟨r, hwalk, hrequires⟩, ?_⟩
  cases r with
  | error e =>
    have hname := name_of_get? h
    have hexplains : c.Explains name e := by
      refine hname ▸ hwalk.explains (hname.symm ▸ h) (List.Subset.refl _) ?_
      rw [hname]
      exact List.forall_mem_singleton.mpr .refl
    have herror : c.requires t = .error e := hrequires
    refine ⟨iff_of_true ⟨e, herror⟩ ?_, ?_, ?_⟩
    · cases e with
      | unknown _ => exact hexplains.elim
      | unknownNeed owner need =>
        exact .inl ⟨need, hexplains.1.tail hexplains.2.1, hexplains.2.2⟩
      | selfDependent n => exact .inr ⟨n, hexplains⟩
    · intro e' he'
      obtain rfl := Except.error.inj (herror.symm.trans he')
      exact hexplains
    · intro names hnames
      cases herror.symm.trans hnames
  | ok finished =>
    obtain ⟨hsettled, hmem⟩ := hwalk.settled h
    have hok : c.requires t = .ok finished.reverse := hrequires
    have hreached := fun n (hn : c.Reach name n) => hsettled.reach_closed List.mem_cons_self hn
    refine ⟨iff_of_false ?_ ?_, ?_, ?_⟩
    · rintro ⟨e, he⟩
      cases hok.symm.trans he
    · rintro (⟨need, hreach, hmissing⟩ | ⟨n, hreach, hcycle⟩)
      · obtain ⟨u, hu⟩ := hsettled.exists_template (hreached need hreach)
        cases hmissing.symm.trans hu
      · exact hsettled.not_onCycle (hreached n hreach) hcycle
    · intro e he
      cases hok.symm.trans he
    · intro names hnames
      obtain rfl := Except.ok.inj (hok.symm.trans hnames)
      have hnodup := (List.nodup_cons.mp hsettled.nodup).2
      refine ⟨(List.reverse_perm finished).nodup_iff.mpr hnodup, ?_, ?_⟩
      · intro n
        rw [List.mem_reverse, hmem]
        refine and_congr_right (fun _ => ⟨fun hn => ⟨?_, hn⟩, And.right⟩)
        exact hsettled.exists_template (hreached n hn)
      · intro before n after heq u hu need hneed
        -- the list is finished from its end
        have hsplit : name :: finished = (name :: after.reverse) ++ n :: before.reverse := by
          have hreverse := congrArg List.reverse heq
          rw [List.reverse_reverse] at hreverse
          simp [hreverse]
        rw [hsplit] at hsettled
        exact List.mem_reverse.mp (hsettled.needs_earlier ⟨u, hu, hneed⟩)

/-- One template needs two others, and both need the last one. -/
def diamondItems : List CatalogItem :=
  [{ name := "top", dependencies := ["left", "right"] }, { name := "right", dependencies := ["base"] },
    { name := "left", dependencies := ["base", "numpy"] }, { name := "base" }]

/-- The template that is needed twice is listed once, and before both that need it. -/
theorem diamond_closure :
    ∃ c t, Catalog.ofItems diamondItems = .ok c ∧ c.get? "top" = some t ∧
      c.requires t = .ok ["base", "left", "right"] ∧ c.Reach "top" "base" ∧
      ∀ before after, ["base", "left", "right"] = before ++ "right" :: after → "base" ∈ before := by
  refine ⟨⟨diamondItems.map Template.ofItem⟩,
    Template.ofItem { name := "top", dependencies := ["left", "right"] }, rfl, rfl, rfl, ?_⟩
  have htop : Catalog.get? ⟨diamondItems.map Template.ofItem⟩ "top" =
      some (Template.ofItem { name := "top", dependencies := ["left", "right"] }) := rfl
  obtain ⟨-, -, -, hclosure⟩ := requires_closure htop
  obtain ⟨-, hmem, horder⟩ := hclosure ["base", "left", "right"] rfl
  exact ⟨((hmem "base").mp (by decide)).2.2,
    fun before after h => horder before "right" after h _ rfl "base" (by decide)⟩

end FlowScript.Catalog
