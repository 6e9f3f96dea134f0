import FlowScript.Proofs.Json.Sorting

/-!
# What a document says

Two documents say the same when they differ in the escapes of their strings only: numbers are compared
digit for digit and members in their order. A string is told by its code points, so a surrogate
without its partner is not the character that replaces it in data.

## Main definitions

- `Tree.content` — what a document says
- `Tree.Settled` — numbers are spelled as they print, keys stand in order, and strings are texts

## Main results

- `content_respelled` — escapes make no difference to what a document says
- `content_toTree_eq_iff` — what comes back from data says the same exactly for settled documents
-/

namespace FlowScript.Json

open Text

/-! ## Code points -/

/-- The code points of a string, with the two halves of a pair joined. -/
def codePoints : List Element → List Nat
  | [] => []
  | .char c :: rest => c.toNat :: codePoints rest
  | [.unit n] => [n]
  | .unit n :: .char c :: rest => n :: c.toNat :: codePoints rest
  | .unit n :: .unit m :: rest =>
    if isHighSurrogate n && isLowSurrogate m then
      (0x10000 + (n - 0xD800) * 0x400 + (m - 0xDC00)) :: codePoints rest
    else n :: codePoints (.unit m :: rest)

/-- The code points of the body of a string literal. -/
def points (body : List Char) : List Nat :=
  codePoints (elements body)

theorem codePoints_toNat (c : Char) (es : List Element) :
    codePoints (.unit c.toNat :: es) = c.toNat :: codePoints es := by
  cases es with
  | nil => simp [codePoints]
  | cons e es =>
    cases e with
    | char d => simp [codePoints]
    | unit m => simp [codePoints, (not_surrogate c).1]

theorem Renumbered.codePoints_eq {es es' : List Element} (h : Renumbered es es') :
    codePoints es = codePoints es' := by
  induction es using codePoints.induct generalizing es' with
  | case1 =>
    cases h
    rfl
  | case2 c rest ih =>
    cases h with
    | keep _ h => rw [codePoints, codePoints, ih h]
    | unit _ h => rw [codePoints, codePoints_toNat, ih h]
  | case3 n =>
    cases h with
    | keep _ h =>
      cases h
      rfl
  | case4 n c rest ih =>
    cases h with
    | keep _ h =>
      cases h with
      | keep _ h => rw [codePoints, codePoints, ih h]
      | unit _ h =>
        have hnot : (isHighSurrogate n && isLowSurrogate c.toNat) = false := by
          simp [(not_surrogate c).2]
        rw [codePoints, codePoints, if_neg (by simp [hnot]), codePoints_toNat, ih h]
  | case5 n m rest hpair ih =>
    cases h with
    | keep _ h =>
      cases h with
      | keep _ h => rw [codePoints, codePoints, if_pos hpair, if_pos hpair, ih h]
  | case6 n m rest hpair ih =>
    cases h with
    | keep _ h =>
      cases h with
      | keep _ h => rw [codePoints, codePoints, if_neg hpair, if_neg hpair, ih (.keep _ h)]

theorem points_respell {body : List Char} (h : IsBody body) (markup : Markup) :
    points (respell markup body) = points body :=
  (renumbered_respell h markup).codePoints_eq.symm

theorem points_escape (markup : Markup) (cs : List Char) :
    points (escape markup cs) = cs.map Char.toNat := by
  rw [points, ← (renumbered_escape markup cs).codePoints_eq]
  induction cs with
  | nil => rfl
  | cons c cs ih => rw [List.map_cons, List.map_cons, codePoints, ih]

/-- The body of a literal is that of a text: no surrogate stands without its partner. -/
def IsText (body : List Char) : Prop :=
  points body = (unescape body).map Char.toNat

instance (body : List Char) : Decidable (IsText body) :=
  inferInstanceAs (Decidable (_ = _))

theorem unitChar_of_le {n : Nat} (h : 0x10000 ≤ n) : unitChar n = Char.ofNat n := by
  have hhigh : isHighSurrogate n = false := by
    simp only [isHighSurrogate, Bool.and_eq_false_iff, decide_eq_false_iff_not]
    omega
  have hlow : isLowSurrogate n = false := by
    simp only [isLowSurrogate, Bool.and_eq_false_iff, decide_eq_false_iff_not]
    omega
  rw [unitChar, hhigh, hlow]
  rfl

/-- The text of a literal has the replacement character for a surrogate without its partner. -/
theorem unescape_eq_map (body : List Char) : unescape body = (points body).map unitChar := by
  unfold unescape points
  fun_induction joinUnits (elements body) with
  | case1 => rfl
  | case2 c rest ih => rw [codePoints, List.map_cons, unitChar_toNat, ih]
  | case3 n => rfl
  | case4 n c rest ih => rw [codePoints, List.map_cons, List.map_cons, unitChar_toNat, ih]
  | case5 n m rest hpair ih =>
    rw [codePoints, if_pos hpair, List.map_cons, unitChar_of_le (by omega), ih]
  | case6 n m rest hpair ih => rw [codePoints, if_neg hpair, List.map_cons, ih]

/-! ## Contents -/

/-- What a document says: numbers by their digits, strings by their code points, members in their
order. -/
inductive Content where
  | null
  | bool (value : Bool)
  | number (text : List Char)
  | string (points : List Nat)
  | array (items : List Content)
  | object (members : List (List Nat × Content))

mutual

/-- What a document says. -/
def Tree.content : Tree → Content
  | .null => .null
  | .bool b => .bool b
  | .number text => .number text
  | .string body => .string (points body)
  | .array items => .array (contentItems items)
  | .object members => .object (contentMembers members)

/-- What the items of a list say. -/
def contentItems : List Tree → List Content
  | [] => []
  | item :: rest => item.content :: contentItems rest

/-- What the members of an object say. -/
def contentMembers : List (List Char × Tree) → List (List Nat × Content)
  | [] => []
  | (key, value) :: rest => (points key, value.content) :: contentMembers rest

end

theorem contentItems_eq_map (items : List Tree) : contentItems items = items.map Tree.content := by
  induction items with
  | nil => rfl
  | cons item rest ih => rw [contentItems, ih, List.map_cons]

theorem contentMembers_eq_map (members : List (List Char × Tree)) :
    contentMembers members = members.map (fun m => (points m.1, m.2.content)) := by
  induction members with
  | nil => rfl
  | cons m rest ih => rw [contentMembers, ih, List.map_cons]

/-- Escapes make no difference to what a document says. -/
theorem content_respelled {t : Tree} (h : t.WellFormed) (markup : Markup) :
    (t.respelled markup).content = t.content := by
  induction h with
  | null => rfl
  | bool b => rfl
  | number h => rfl
  | string h => rw [Tree.respelled, Tree.content, Tree.content, points_respell h]
  | array hwf ih =>
    rw [Tree.respelled, Tree.content, Tree.content, respelledItems_eq_map, contentItems_eq_map,
      contentItems_eq_map, List.map_map]
    exact congrArg Content.array (List.map_congr_left ih)
  | object hkeys hwf ih =>
    rw [Tree.respelled, Tree.content, Tree.content, respelledMembers_eq_map, contentMembers_eq_map,
      contentMembers_eq_map, List.map_map]
    refine congrArg Content.object (List.map_congr_left ?_)
    intro m hm
    simp [points_respell (hkeys m hm), ih m hm]

/-! ## Documents that come back from data -/

/-- The text of a key. -/
def keyText (m : List Char × Tree) : String :=
  String.ofList (unescape m.1)

/-- Numbers are spelled as they print, the keys of objects stand in strictly increasing order, and
strings are texts. -/
inductive Tree.Settled : Tree → Prop
  | null : Settled .null
  | bool (b : Bool) : Settled (.bool b)
  | number {text : List Char} {x : Binary64} (hread : Binary64.read text = .number x)
      (hprint : NumberLayout.document.render x = text) : Settled (.number text)
  | string {body : List Char} (h : IsText body) : Settled (.string body)
  | array {items : List Tree} (h : ∀ t ∈ items, Settled t) : Settled (.array items)
  | object {members : List (List Char × Tree)} (hkeys : ∀ m ∈ members, IsText m.1)
      (hsorted : members.Pairwise (fun a b => keyText a < keyText b))
      (h : ∀ m ∈ members, Settled m.2) : Settled (.object members)

theorem content_text (s : String) : (Tree.text s).content = .string (s.toList.map Char.toNat) := by
  rw [Tree.text, Tree.content, points_escape]

theorem forall₂_map_eq_iff {α β γ : Type} {R : α → β → Prop} {f : α → γ} {g : β → γ} {P : α → Prop}
    {as : List α} {bs : List β} (h : List.Forall₂ R as bs)
    (heq : ∀ a ∈ as, ∀ b, R a b → (g b = f a ↔ P a)) :
    bs.map g = as.map f ↔ ∀ a ∈ as, P a := by
  induction h with
  | nil => simp
  | cons hhead _ ih =>
    rw [List.map_cons, List.map_cons, List.cons_eq_cons, List.forall_mem_cons,
      heq _ List.mem_cons_self _ hhead, ih fun a ha => heq a (List.mem_cons_of_mem _ ha)]

/-- What the members of an object say when they come back in their order. -/
theorem contentMembers_eq_iff {members : List (List Char × Tree)} {vs : List (String × Value)}
    (hvs : List.Forall₂ MemberHolds members vs)
    (ih : ∀ m ∈ members, ∀ v, Value.ofTree m.2 = .ok v →
      (v.toTree.content = m.2.content ↔ m.2.Settled)) :
    contentMembers (toMembers vs) = contentMembers members ↔
      ∀ m ∈ members, IsText m.1 ∧ m.2.Settled := by
  rw [contentMembers_eq_map, contentMembers_eq_map, toMembers_eq_map, List.map_map]
  refine forall₂_map_eq_iff hvs ?_
  rintro ⟨key, value⟩ hm ⟨name, v⟩ ⟨rfl, hread⟩
  rw [Function.comp_apply, Prod.mk.injEq, points_escape, String.toList_ofList, IsText, eq_comm,
    ih _ hm v hread]

theorem map_fst_of_memberHolds {members : List (List Char × Tree)} {vs : List (String × Value)}
    (h : List.Forall₂ MemberHolds members vs) : members.map keyText = vs.map Prod.fst :=
  map_eq_map_of_forall₂ h fun _ _ hm => hm.1

/-- Members that say the same as before were sorted before. -/
theorem keys_sorted_of_contentMembers_eq {members : List (List Char × Tree)}
    {sorted : List (String × Value)} (hsorted : sorted.Pairwise (fun a b => a.1 < b.1))
    (h : contentMembers (toMembers sorted) = contentMembers members) :
    (members.map keyText).Pairwise (· < ·) := by
  have hkeys : sorted.map Prod.fst = members.map keyText := by
    have hpoints := congrArg (List.map fun m => String.ofList (m.1.map unitChar)) h
    simp only [contentMembers_eq_map, toMembers_eq_map, List.map_map] at hpoints
    refine .trans (List.map_congr_left ?_) (hpoints.trans (List.map_congr_left ?_))
    · intro m _
      rw [Function.comp_apply, Function.comp_apply, ← unescape_eq_map, unescape_escape,
        String.ofList_toList]
    · intro m _
      rw [Function.comp_apply, ← unescape_eq_map, keyText]
  rw [← hkeys]
  exact List.pairwise_map.mpr hsorted

/-- A document that came back from data says the same exactly when it is settled. -/
theorem content_toTree_eq_iff {t : Tree} {v : Value} (h : Value.ofTree t = .ok v) :
    v.toTree.content = t.content ↔ t.Settled := by
  induction t using Tree.induction generalizing v with
  | null =>
    obtain rfl := Except.ok.inj h
    exact iff_of_true rfl .null
  | bool b =>
    obtain rfl := Except.ok.inj h
    exact iff_of_true rfl (.bool b)
  | number text =>
    rw [Value.ofTree] at h
    split at h
    · next x hread =>
      obtain rfl := Except.ok.inj h
      constructor
      · intro heq
        exact .number hread (Content.number.inj heq)
      · rintro (_ | _ | @⟨_, y, hy, hprint⟩)
        obtain rfl : x = y := by simpa [hread] using hy
        exact congrArg Content.number hprint
    · cases h
  | string body =>
    obtain rfl := Except.ok.inj h
    rw [Value.toTree, content_text, String.toList_ofList, Tree.content]
    constructor
    · intro heq
      exact .string (Content.string.inj heq).symm
    · rintro (_ | _ | _ | htext)
      exact congrArg Content.string htext.symm
  | array items ih =>
    obtain ⟨vs, hvs, rfl⟩ := ofTree_array_eq_ok_iff.mp h
    have hitems : (vs.map Value.toTree).map Tree.content = items.map Tree.content ↔
        ∀ t ∈ items, t.Settled := by
      rw [List.map_map]
      exact forall₂_map_eq_iff hvs fun t ht v hread => ih t ht hread
    rw [Value.toTree, Tree.content, Tree.content, toItems_eq_map, contentItems_eq_map,
      contentItems_eq_map, Content.array.injEq, hitems]
    constructor
    · exact .array
    · rintro (_ | _ | _ | _ | hsettled)
      exact hsettled
  | object members ih =>
    obtain ⟨vs, hvs, rfl⟩ := ofTree_object_eq_ok_iff.mp h
    have hmembers := contentMembers_eq_iff hvs fun m hm v hread => ih m hm hread
    -- members in order are not moved by sorting
    have hkept : (members.map keyText).Pairwise (· < ·) → insertMembers [] vs = vs := by
      intro hkeys
      rw [map_fst_of_memberHolds hvs] at hkeys
      exact insertMembers_eq_of_perm (List.pairwise_map.mp hkeys) (.refl _)
    rw [Value.toTree, Tree.content, Tree.content, Content.object.injEq]
    constructor
    · intro heq
      have hkeys := keys_sorted_of_contentMembers_eq (pairwise_insertMembers .nil) heq
      rw [hkept hkeys, hmembers] at heq
      exact .object (fun m hm => (heq m hm).1) (List.pairwise_map.mp hkeys) (fun m hm => (heq m hm).2)
    · rintro (_ | _ | _ | _ | _ | ⟨htexts, hkeys, hsettled⟩)
      rw [hkept (List.pairwise_map.mpr hkeys), hmembers]
      exact fun m hm => ⟨htexts m hm, hsettled m hm⟩

end FlowScript.Json
