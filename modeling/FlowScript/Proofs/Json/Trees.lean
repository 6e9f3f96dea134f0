import FlowScript.Proofs.Json.Numbers
import FlowScript.Proofs.Json.Strings

/-!
# Written documents

A document is well formed when its numbers, strings and keys are spelled as the syntax has it. How
special characters are spelled and which blanks stand between the tokens makes no difference to what
it says: escaping can be done first, on the tree, and both ways to write a document are one way with
different blanks.

## Main definitions

- `Tree.WellFormed` — numbers and strings of a document are spelled as the syntax has it
- `Spacing`, `Tree.spaced` — a document with blanks between its tokens

## Main results

- `spaced_eq` — escaping while writing is escaping first and writing then
- `spaced_none`, `spaced_lines` — the two ways to write a document
-/

namespace FlowScript.Json

open Text

/-- Induction over a document and the documents inside it. -/
@[elab_as_elim]
theorem Tree.induction {P : Tree → Prop} (null : P .null) (bool : ∀ b, P (.bool b))
    (number : ∀ text, P (.number text)) (string : ∀ body, P (.string body))
    (array : ∀ items, (∀ t ∈ items, P t) → P (.array items))
    (object : ∀ members, (∀ m ∈ members, P m.2) → P (.object members)) (t : Tree) : P t :=
  match t with
  | .null => null
  | .bool b => bool b
  | .number text => number text
  | .string body => string body
  | .array items =>
    array items (fun t _ => Tree.induction null bool number string array object t)
  | .object members =>
    object members (fun m _ => Tree.induction null bool number string array object m.2)
termination_by sizeOf t
decreasing_by
  · rename_i hmem
    have hlt := List.sizeOf_lt_of_mem hmem
    simp only [Tree.array.sizeOf_spec]
    omega
  · rename_i hmem
    have hlt := List.sizeOf_lt_of_mem hmem
    have hsnd : sizeOf m = 1 + sizeOf m.1 + sizeOf m.2 := rfl
    simp only [Tree.object.sizeOf_spec]
    omega

/-! ## Well-formed documents -/

/-- Numbers, strings and keys are spelled as the syntax has it. -/
inductive Tree.WellFormed : Tree → Prop
  | null : WellFormed .null
  | bool (b : Bool) : WellFormed (.bool b)
  | number {text : List Char} (h : IsNumber text) : WellFormed (.number text)
  | string {body : List Char} (h : IsBody body) : WellFormed (.string body)
  | array {items : List Tree} (h : ∀ t ∈ items, WellFormed t) : WellFormed (.array items)
  | object {members : List (List Char × Tree)} (hkeys : ∀ m ∈ members, IsBody m.1)
      (h : ∀ m ∈ members, WellFormed m.2) : WellFormed (.object members)

theorem respelledItems_eq_map (markup : Markup) (items : List Tree) :
    respelledItems markup items = items.map (Tree.respelled markup) := by
  induction items with
  | nil => rfl
  | cons item rest ih => rw [respelledItems, ih, List.map_cons]

theorem respelledMembers_eq_map (markup : Markup) (members : List (List Char × Tree)) :
    respelledMembers markup members =
      members.map (fun m => (respell markup m.1, m.2.respelled markup)) := by
  induction members with
  | nil => rfl
  | cons m rest ih => rw [respelledMembers, ih, List.map_cons]

theorem depth_le_itemsDepth {items : List Tree} {t : Tree} (h : t ∈ items) :
    t.depth ≤ itemsDepth items := by
  induction items with
  | nil => cases h
  | cons item rest ih =>
    rw [itemsDepth]
    rcases List.mem_cons.mp h with rfl | h
    · exact Nat.le_max_left _ _
    · exact Nat.le_trans (ih h) (Nat.le_max_right _ _)

theorem depth_le_membersDepth {members : List (List Char × Tree)} {m : List Char × Tree}
    (h : m ∈ members) : m.2.depth ≤ membersDepth members := by
  induction members with
  | nil => cases h
  | cons member rest ih =>
    rw [membersDepth]
    rcases List.mem_cons.mp h with rfl | h
    · exact Nat.le_max_left _ _
    · exact Nat.le_trans (ih h) (Nat.le_max_right _ _)

theorem itemsDepth_le {items : List Tree} {n : Nat} (h : ∀ t ∈ items, t.depth ≤ n) :
    itemsDepth items ≤ n := by
  induction items with
  | nil => exact Nat.zero_le n
  | cons item rest ih =>
    rw [itemsDepth]
    exact Nat.max_le.mpr ⟨h item List.mem_cons_self, ih (fun t ht => h t (List.mem_cons_of_mem _ ht))⟩

theorem membersDepth_le {members : List (List Char × Tree)} {n : Nat}
    (h : ∀ m ∈ members, m.2.depth ≤ n) : membersDepth members ≤ n := by
  induction members with
  | nil => exact Nat.zero_le n
  | cons member rest ih =>
    rw [membersDepth]
    exact Nat.max_le.mpr ⟨h member List.mem_cons_self, ih (fun m hm => h m (List.mem_cons_of_mem _ hm))⟩

/-! ## Respelled documents -/

theorem respelled_plain (t : Tree) : t.respelled .plain = t := by
  induction t using Tree.induction with
  | null => rfl
  | bool b => rfl
  | number text => rfl
  | string body => rfl
  | array items ih =>
    rw [Tree.respelled, respelledItems_eq_map, List.map_congr_left ih, List.map_id']
  | object members ih =>
    have hmembers : ∀ m ∈ members, (respell .plain m.1, m.2.respelled .plain) = m := by
      intro m hm
      rw [ih m hm]
      rfl
    rw [Tree.respelled, respelledMembers_eq_map, List.map_congr_left hmembers, List.map_id']

theorem respelled_respelled (t : Tree) (markup : Markup) :
    (t.respelled markup).respelled markup = t.respelled markup := by
  induction t using Tree.induction with
  | null => rfl
  | bool b => rfl
  | number text => rfl
  | string body => rw [Tree.respelled, Tree.respelled, respell_respell]
  | array items ih =>
    simp only [Tree.respelled, respelledItems_eq_map, List.map_map]
    exact congrArg Tree.array (List.map_congr_left ih)
  | object members ih =>
    simp only [Tree.respelled, respelledMembers_eq_map, List.map_map]
    refine congrArg Tree.object (List.map_congr_left ?_)
    intro m hm
    simp [respell_respell, ih m hm]

theorem depth_respelled (t : Tree) (markup : Markup) :
    (t.respelled markup).depth = t.depth := by
  induction t using Tree.induction with
  | null => rfl
  | bool b => rfl
  | number text => rfl
  | string body => rfl
  | array items ih =>
    have hitems : itemsDepth (respelledItems markup items) = itemsDepth items := by
      induction items with
      | nil => rfl
      | cons item rest ihr =>
        rw [respelledItems, itemsDepth, itemsDepth, ih item List.mem_cons_self,
          ihr (fun t ht => ih t (List.mem_cons_of_mem item ht))]
    rw [Tree.respelled, Tree.depth, Tree.depth, hitems]
  | object members ih =>
    have hmembers : membersDepth (respelledMembers markup members) = membersDepth members := by
      induction members with
      | nil => rfl
      | cons member rest ihr =>
        obtain ⟨key, value⟩ := member
        rw [respelledMembers, membersDepth, membersDepth, ih (key, value) List.mem_cons_self,
          ihr (fun t ht => ih t (List.mem_cons_of_mem _ ht))]
    rw [Tree.respelled, Tree.depth, Tree.depth, hmembers]

/-! ## Blanks between tokens -/

/-- Where blanks stand in a written document. -/
structure Spacing where
  /-- Before an item or a member, and before a closing bracket, by its level. -/
  line : Nat → List Char
  /-- Behind a colon. -/
  colon : List Char
  line_isGap : ∀ depth, ∀ c ∈ line depth, isGap c = true
  colon_isGap : ∀ c ∈ colon, isGap c = true

/-- No blanks. -/
def Spacing.none : Spacing where
  line _ := []
  colon := []
  line_isGap := by simp
  colon_isGap := by simp

/-- One item or member per line. -/
def Spacing.lines : Spacing where
  line := newline
  colon := [' ']
  line_isGap := by
    intro depth c hc
    rcases List.mem_cons.mp hc with rfl | hc
    · rfl
    · rw [(List.mem_replicate.mp hc).2]
      rfl
  colon_isGap := by simp [isGap]

mutual

/-- A document with blanks between its tokens. -/
def Tree.spaced (markup : Markup) (spacing : Spacing) (depth : Nat) : Tree → List Char
  | .array [] => ['[', ']']
  | .array (item :: rest) =>
    '[' :: (spacedItems markup spacing (depth + 1) (item :: rest) ++ (spacing.line depth ++ [']']))
  | .object [] => ['\x7b', '\x7d']
  | .object (member :: rest) =>
    '\x7b' :: (spacedMembers markup spacing (depth + 1) (member :: rest)
      ++ (spacing.line depth ++ ['\x7d']))
  | t => t.compact markup

def spacedItems (markup : Markup) (spacing : Spacing) (depth : Nat) : List Tree → List Char
  | [] => []
  | [item] => spacing.line depth ++ item.spaced markup spacing depth
  | item :: rest =>
    spacing.line depth ++ (item.spaced markup spacing depth
      ++ ',' :: spacedItems markup spacing depth rest)

def spacedMembers (markup : Markup) (spacing : Spacing) (depth : Nat) :
    List (List Char × Tree) → List Char
  | [] => []
  | [(key, value)] =>
    spacing.line depth ++ '"' :: (respell markup key
      ++ '"' :: ':' :: (spacing.colon ++ value.spaced markup spacing depth))
  | (key, value) :: rest =>
    spacing.line depth ++ '"' :: (respell markup key
      ++ '"' :: ':' :: (spacing.colon ++ (value.spaced markup spacing depth
        ++ ',' :: spacedMembers markup spacing depth rest)))

end

/-! ## Escaping while writing -/

theorem spacedItems_eq {items : List Tree} {markup : Markup} {spacing : Spacing}
    (h : ∀ t ∈ items, ∀ depth,
      t.spaced markup spacing depth = (t.respelled markup).spaced .plain spacing depth)
    (depth : Nat) : spacedItems markup spacing depth items =
      spacedItems .plain spacing depth (respelledItems markup items) := by
  induction items with
  | nil => rfl
  | cons item rest ih =>
    have hitem := h item List.mem_cons_self depth
    have hrest := ih (fun t ht => h t (List.mem_cons_of_mem item ht))
    -- no comma stands behind the last item, so a list of one item is a case of its own
    cases rest with
    | nil => rw [spacedItems, hitem, respelledItems, respelledItems, spacedItems]
    | cons next rest =>
      rw [respelledItems, spacedItems, hitem, hrest, spacedItems]
      · rw [respelledItems]
        simp
      · simp

theorem spacedMembers_eq {members : List (List Char × Tree)} {markup : Markup} {spacing : Spacing}
    (h : ∀ m ∈ members, ∀ depth,
      m.2.spaced markup spacing depth = (m.2.respelled markup).spaced .plain spacing depth)
    (depth : Nat) : spacedMembers markup spacing depth members =
      spacedMembers .plain spacing depth (respelledMembers markup members) := by
  induction members with
  | nil => rfl
  | cons member rest ih =>
    obtain ⟨key, value⟩ := member
    have hvalue := h (key, value) List.mem_cons_self depth
    have hrest := ih (fun m hm => h m (List.mem_cons_of_mem _ hm))
    cases rest with
    | nil =>
      rw [spacedMembers, hvalue, respelledMembers, respelledMembers, spacedMembers]
      rfl
    | cons next rest =>
      rw [respelledMembers, spacedMembers, hvalue, hrest, spacedMembers]
      · rfl
      · obtain ⟨key', value'⟩ := next
        rw [respelledMembers]
        simp
      · simp

/-- Escaping while writing is escaping first and writing then. -/
theorem spaced_eq (t : Tree) (markup : Markup) (spacing : Spacing) (depth : Nat) :
    t.spaced markup spacing depth = (t.respelled markup).spaced .plain spacing depth := by
  induction t using Tree.induction generalizing depth with
  | null => rfl
  | bool b => cases b <;> rfl
  | number text => rfl
  | string body => rfl
  | array items ih =>
    cases items with
    | nil => rfl
    | cons item rest =>
      rw [Tree.spaced, spacedItems_eq ih]
      rfl
  | object members ih =>
    cases members with
    | nil => rfl
    | cons member rest =>
      rw [Tree.spaced, spacedMembers_eq ih]
      rfl

/-! ## The two ways to write a document -/

theorem spacedItems_none {items : List Tree} {markup : Markup}
    (h : ∀ t ∈ items, ∀ depth, t.spaced markup .none depth = t.compact markup) (depth : Nat) :
    spacedItems markup .none depth items = compactItems markup items := by
  induction items with
  | nil => rfl
  | cons item rest ih =>
    have hitem := h item List.mem_cons_self depth
    have hrest := ih (fun t ht => h t (List.mem_cons_of_mem item ht))
    cases rest with
    | nil => exact hitem
    | cons next rest =>
      rw [spacedItems, compactItems, hitem, hrest]
      · rfl
      · simp
      · simp

theorem spacedMembers_none {members : List (List Char × Tree)} {markup : Markup}
    (h : ∀ m ∈ members, ∀ depth, m.2.spaced markup .none depth = m.2.compact markup)
    (depth : Nat) : spacedMembers markup .none depth members = compactMembers markup members := by
  induction members with
  | nil => rfl
  | cons member rest ih =>
    obtain ⟨key, value⟩ := member
    have hvalue := h (key, value) List.mem_cons_self depth
    have hrest := ih (fun m hm => h m (List.mem_cons_of_mem _ hm))
    cases rest with
    | nil =>
      rw [spacedMembers, compactMembers, hvalue]
      rfl
    | cons next rest =>
      rw [spacedMembers, compactMembers, hvalue, hrest]
      · rfl
      · simp
      · simp

/-- A document without blanks. -/
theorem spaced_none (t : Tree) (markup : Markup) (depth : Nat) :
    t.spaced markup .none depth = t.compact markup := by
  induction t using Tree.induction generalizing depth with
  | null => rfl
  | bool b => rfl
  | number text => rfl
  | string body => rfl
  | array items ih =>
    cases items with
    | nil => rfl
    | cons item rest =>
      rw [Tree.spaced, Tree.compact, spacedItems_none ih]
      rfl
  | object members ih =>
    cases members with
    | nil => rfl
    | cons member rest =>
      rw [Tree.spaced, Tree.compact, spacedMembers_none ih]
      rfl

theorem spacedItems_lines {items : List Tree} {markup : Markup}
    (h : ∀ t ∈ items, ∀ depth, t.spaced markup .lines depth = t.indented markup depth)
    (depth : Nat) : spacedItems markup .lines depth items = indentedItems markup depth items := by
  induction items with
  | nil => rfl
  | cons item rest ih =>
    have hitem := h item List.mem_cons_self depth
    have hrest := ih (fun t ht => h t (List.mem_cons_of_mem item ht))
    cases rest with
    | nil =>
      rw [spacedItems, indentedItems, hitem]
      rfl
    | cons next rest =>
      rw [spacedItems, indentedItems, hitem, hrest, List.append_assoc]
      · rfl
      · simp
      · simp

theorem spacedMembers_lines {members : List (List Char × Tree)} {markup : Markup}
    (h : ∀ m ∈ members, ∀ depth, m.2.spaced markup .lines depth = m.2.indented markup depth)
    (depth : Nat) :
    spacedMembers markup .lines depth members = indentedMembers markup depth members := by
  induction members with
  | nil => rfl
  | cons member rest ih =>
    obtain ⟨key, value⟩ := member
    have hvalue := h (key, value) List.mem_cons_self depth
    have hrest := ih (fun m hm => h m (List.mem_cons_of_mem _ hm))
    cases rest with
    | nil =>
      rw [spacedMembers, indentedMembers, hvalue, List.append_assoc]
      rfl
    | cons next rest =>
      rw [spacedMembers, indentedMembers, hvalue, hrest, List.append_assoc (respell markup key)]
      · rfl
      · simp
      · simp

/-- A document with one item or member per line. -/
theorem spaced_lines (t : Tree) (markup : Markup) (depth : Nat) :
    t.spaced markup .lines depth = t.indented markup depth := by
  induction t using Tree.induction generalizing depth with
  | null => rfl
  | bool b => rfl
  | number text => rfl
  | string body => rfl
  | array items ih =>
    cases items with
    | nil => rfl
    | cons item rest =>
      rw [Tree.spaced, Tree.indented, spacedItems_lines ih, List.append_assoc]
      rfl
  | object members ih =>
    cases members with
    | nil => rfl
    | cons member rest =>
      rw [Tree.spaced, Tree.indented, spacedMembers_lines ih, List.append_assoc]
      rfl

end FlowScript.Json
