import FlowScript.Source.Bracketing
import FlowScript.Text.Blank

/-!
# Texts with nested brackets

The search for a closing bracket and the split at top-level commas both pass over a text whose
brackets nest properly and whose string literals are closed as if it were a single character. What
both do with one character is told first; what follows for nested texts is shown for both at once.

## Main definitions

- `LiteralBody` — what may stand between two quotes
- `Nested` — the texts with nested brackets and closed literals
- `PassesOver` — a reading that keeps track of literals and brackets

## Main results

- `closing?_append` — a bracket is closed by the same one when text is added
- `PassesOver.nested` — such a reading passes over nested texts
- `closing?_passesOver`, `splitFrom_passesOver` — the search for a closing bracket and the split at
  commas are such readings
- `splitTopLevel_glue` — nested texts are found again where commas joined them
-/

namespace FlowScript.Source

open Text

/-! ## One character -/

/-- Puts a text in front of what stands before a closing bracket. -/
def behind (front : List Char) (found : Option (List Char × List Char)) :
    Option (List Char × List Char) :=
  found.map (fun split => (front ++ split.1, split.2))

@[simp] theorem behind_some (front before after : List Char) :
    behind front (some (before, after)) = some (front ++ before, after) :=
  rfl

theorem behind_behind (front next : List Char) (found : Option (List Char × List Char)) :
    behind front (behind next found) = behind (front ++ next) found := by
  cases found <;> simp [behind]

@[simp] theorem behind_nil (found : Option (List Char × List Char)) : behind [] found = found := by
  cases found <;> rfl

section Closing

variable {literal : Literal} {c : Char}

theorem closing?_closer (h : isCloser c = true) (cs : List Char) :
    closing? 0 .outside (c :: cs) = some ([], cs) := by
  rw [closing?, if_pos ⟨rfl, h⟩]

theorem closing?_closer_succ (h : isCloser c = true) (depth : Nat) (cs : List Char) :
    closing? (depth + 1) .outside (c :: cs) = behind [c] (closing? depth .outside cs) := by
  rw [closing?, if_pos ⟨rfl, h⟩]
  rfl

/-- A character that closes no bracket. -/
theorem closing?_cons (h : ¬ (literal = .outside ∧ isCloser c = true)) (depth : Nat)
    (cs : List Char) :
    closing? depth literal (c :: cs) =
      behind [c] (closing? (if literal = .outside ∧ isOpener c = true then depth + 1 else depth)
        (literal.next c) cs) := by
  cases depth with
  | zero =>
    rw [closing?, if_neg h]
    rfl
  | succ depth =>
    rw [closing?, if_neg h]
    rfl

theorem eq_of_behind_singleton {found : Option (List Char × List Char)} {before after : List Char}
    (h : behind [c] found = some (before, after)) :
    ∃ inner, before = c :: inner ∧ found = some (inner, after) := by
  obtain ⟨⟨inner, rest⟩, rfl, heq⟩ := Option.map_eq_some_iff.mp h
  obtain ⟨rfl, rfl⟩ := Prod.mk.inj heq
  exact ⟨inner, rfl, rfl⟩

/-- A bracket is closed by the same one when text is added. -/
theorem closing?_append {depth : Nat} {cs before after : List Char}
    (h : closing? depth literal cs = some (before, after)) (more : List Char) :
    closing? depth literal (cs ++ more) = some (before, after ++ more) := by
  induction cs generalizing depth literal before with
  | nil => cases h
  | cons c cs ih =>
    rw [List.cons_append]
    by_cases hcloses : literal = .outside ∧ isCloser c = true
    · obtain ⟨rfl, hc⟩ := hcloses
      cases depth with
      | zero =>
        rw [closing?_closer hc] at h ⊢
        cases h
        rfl
      | succ depth =>
        rw [closing?_closer_succ hc] at h ⊢
        obtain ⟨inner, rfl, hinner⟩ := eq_of_behind_singleton h
        rw [ih hinner]
        rfl
    · rw [closing?_cons hcloses] at h ⊢
      obtain ⟨inner, rfl, hinner⟩ := eq_of_behind_singleton h
      rw [ih hinner]
      rfl

end Closing

/-- Puts a text in front of the first of some pieces. -/
def inFront (front : List Char) (pieces : List (List Char)) : List (List Char) :=
  (front ++ pieces.headD []) :: pieces.tail

theorem inFront_inFront (front next : List Char) (pieces : List (List Char)) :
    inFront front (inFront next pieces) = inFront (front ++ next) pieces := by
  simp [inFront]

theorem splitFrom_ne_nil (depth : Nat) (literal : Literal) (cs : List Char) :
    splitFrom depth literal cs ≠ [] := by
  cases cs with
  | nil => simp [splitFrom]
  | cons c cs =>
    simp only [splitFrom]
    split
    · simp
    · split <;> simp

theorem inFront_nil_splitFrom (depth : Nat) (literal : Literal) (cs : List Char) :
    inFront [] (splitFrom depth literal cs) = splitFrom depth literal cs := by
  obtain ⟨piece, rest, h⟩ := List.exists_cons_of_ne_nil (splitFrom_ne_nil depth literal cs)
  rw [h]
  rfl

/-- A comma that stands outside brackets and literals. -/
theorem splitFrom_comma (cs : List Char) :
    splitFrom 0 .outside (',' :: cs) = [] :: splitFrom 0 .outside cs := by
  rw [splitFrom, if_pos ⟨rfl, rfl, rfl⟩]

/-- A character that does not split. -/
theorem splitFrom_cons {depth : Nat} {literal : Literal} {c : Char}
    (h : ¬ (literal = .outside ∧ depth = 0 ∧ c = ',')) (cs : List Char) :
    splitFrom depth literal (c :: cs) =
      inFront [c] (splitFrom (if literal = .outside then depthAfter depth c else depth)
        (literal.next c) cs) := by
  rw [splitFrom, if_neg h]
  obtain ⟨piece, rest, hpieces⟩ := List.exists_cons_of_ne_nil
    (splitFrom_ne_nil (if literal = .outside then depthAfter depth c else depth) (literal.next c) cs)
  simp only [hpieces]
  rfl

/-! ## Nested texts -/

/-- What may stand between two quotes: no such quote, and no backslash but with a character behind
it. -/
inductive LiteralBody (quote : Char) : List Char → Prop
  | nil : LiteralBody quote []
  | plain {c : Char} {cs : List Char} (slash : c ≠ '\\') (apart : c ≠ quote)
      (rest : LiteralBody quote cs) : LiteralBody quote (c :: cs)
  | escape {c : Char} {cs : List Char} (rest : LiteralBody quote cs) :
      LiteralBody quote ('\\' :: c :: cs)

/-- The brackets that belong together. -/
def bracketPairs : List (Char × Char) :=
  [('(', ')'), ('[', ']'), ('\x7b', '\x7d')]

/-- A character that is no quote and no bracket. -/
def isPlainText (c : Char) : Bool :=
  !isQuote c && !isOpener c && !isCloser c

/-- Texts whose brackets nest properly and whose literals are closed. The flag tells whether commas
may stand outside of them. -/
inductive Nested : Bool → List Char → Prop
  | nil {commas : Bool} : Nested commas []
  | plain {commas : Bool} {c : Char} {cs : List Char} (hc : isPlainText c = true)
      (comma : c = ',' → commas = true) (rest : Nested commas cs) : Nested commas (c :: cs)
  | literal {commas : Bool} {quote : Char} {body cs : List Char} (hquote : isQuote quote = true)
      (hbody : LiteralBody quote body) (rest : Nested commas cs) :
      Nested commas (quote :: (body ++ quote :: cs))
  | group {commas : Bool} {opener closer : Char} {inner cs : List Char}
      (pair : (opener, closer) ∈ bracketPairs) (hinner : Nested true inner)
      (rest : Nested commas cs) : Nested commas (opener :: (inner ++ closer :: cs))

theorem Nested.append {commas : Bool} {s t : List Char} (hs : Nested commas s)
    (ht : Nested commas t) : Nested commas (s ++ t) := by
  induction hs with
  | nil => exact ht
  | plain hc comma _ ih => exact .plain hc comma (ih ht)
  | literal hquote hbody _ ih =>
    simpa using Nested.literal hquote hbody (ih ht)
  | group pair hinner _ _ ih =>
    simpa using Nested.group pair hinner (ih ht)

/-- A text without quotes and brackets, and without commas where none may stand. -/
theorem nested_of_all {commas : Bool} {s : List Char}
    (h : s.all (fun c => isPlainText c && (commas || c != ',')) = true) : Nested commas s := by
  induction s with
  | nil => exact .nil
  | cons c s ih =>
    simp only [List.all_cons, Bool.and_eq_true, Bool.or_eq_true, bne_iff_ne, ne_eq] at h
    obtain ⟨⟨hplain, hcomma⟩, hs⟩ := h
    exact .plain hplain (fun heq => hcomma.resolve_right (absurd heq)) (ih (by simpa using hs))

theorem isPlainText_iff {c : Char} :
    isPlainText c = true ↔ isQuote c = false ∧ isOpener c = false ∧ isCloser c = false := by
  simp [isPlainText, and_assoc]

theorem quote_cases {quote : Char} (h : isQuote quote = true) :
    quote ≠ '\\' ∧ isOpener quote = false ∧ isCloser quote = false ∧ quote ≠ ',' := by
  rcases (by simpa [isQuote] using h : quote = '\'' ∨ quote = '"') with rfl | rfl
  · decide
  · decide

theorem opener_cases {c : Char} (h : isOpener c = true) : isCloser c = false ∧ c ≠ ',' := by
  rcases (by simpa [isOpener, or_assoc] using h : c = '(' ∨ c = '[' ∨ c = '\x7b') with rfl | rfl | rfl
  · decide
  · decide
  · decide

theorem pair_cases {opener closer : Char} (h : (opener, closer) ∈ bracketPairs) :
    isOpener opener = true ∧ isQuote opener = false ∧
      isCloser closer = true ∧ isOpener closer = false ∧ isQuote closer = false := by
  have hall : ∀ pair ∈ bracketPairs, isOpener pair.1 = true ∧ isQuote pair.1 = false ∧
      isCloser pair.2 = true ∧ isOpener pair.2 = false ∧ isQuote pair.2 = false := by decide
  exact hall _ h

namespace Literal

theorem next_outside_of_not_quote {c : Char} (h : isQuote c = false) : next .outside c = .outside := by
  simp [next, h]

theorem next_outside_of_quote {c : Char} (h : isQuote c = true) : next .outside c = .inside c := by
  simp [next, h]

theorem next_inside_of_ne {quote c : Char} (hslash : c ≠ '\\') (h : c ≠ quote) :
    next (.inside quote) c = .inside quote := by
  simp [next, hslash, h]

theorem next_inside_self {quote : Char} (h : quote ≠ '\\') : next (.inside quote) quote = .outside := by
  simp [next, h]

end Literal

/-! ## Passing over nested texts -/

/-- A reading from left to right that keeps track of literals and open brackets and puts what it
passes over in front of what it makes of the rest. Commas are passed over at the given depths. -/
structure PassesOver {α : Type} (read : Nat → Literal → List Char → α) (put : List Char → α → α)
    (comma : Nat → Prop) : Prop where
  put_nil : ∀ depth literal cs, put [] (read depth literal cs) = read depth literal cs
  put_put : ∀ front next found, put front (put next found) = put (front ++ next) found
  inner : ∀ {literal : Literal}, literal ≠ .outside → ∀ depth c cs,
    read depth literal (c :: cs) = put [c] (read depth (literal.next c) cs)
  quote : ∀ {c : Char}, isQuote c = true → ∀ depth cs,
    read depth .outside (c :: cs) = put [c] (read depth (.inside c) cs)
  opener : ∀ {c : Char}, isOpener c = true → isQuote c = false → ∀ depth cs,
    read depth .outside (c :: cs) = put [c] (read (depth + 1) .outside cs)
  closer : ∀ {c : Char}, isCloser c = true → isOpener c = false → isQuote c = false → ∀ depth cs,
    read (depth + 1) .outside (c :: cs) = put [c] (read depth .outside cs)
  plain : ∀ {c : Char} {depth : Nat}, isPlainText c = true → (c = ',' → comma depth) → ∀ cs,
    read depth .outside (c :: cs) = put [c] (read depth .outside cs)
  comma_succ : ∀ depth, comma (depth + 1)

namespace PassesOver

variable {α : Type} {read : Nat → Literal → List Char → α} {put : List Char → α → α}
  {comma : Nat → Prop}

theorem literalBody (h : PassesOver read put comma) {quote : Char} (hquote : quote ≠ '\\')
    {body : List Char} (hbody : LiteralBody quote body) (depth : Nat) (rest : List Char) :
    read depth (.inside quote) (body ++ quote :: rest) =
      put (body ++ [quote]) (read depth .outside rest) := by
  induction hbody with
  | nil =>
    rw [List.nil_append, h.inner (by simp), Literal.next_inside_self hquote, List.nil_append]
  | plain slash apart _ ih =>
    rw [List.cons_append, h.inner (by simp), Literal.next_inside_of_ne slash apart, ih, h.put_put]
    rfl
  | @escape c _ _ ih =>
    rw [List.cons_append, List.cons_append, h.inner (by simp)]
    show put ['\\'] (read depth (.escaped quote) _) = _
    rw [h.inner (by simp)]
    show put ['\\'] (put [c] (read depth (.inside quote) _)) = _
    rw [ih, h.put_put, h.put_put]
    rfl

theorem nested (h : PassesOver read put comma) {commas : Bool} {text : List Char}
    (htext : Nested commas text) {depth : Nat} (hdepth : commas = true → comma depth)
    (rest : List Char) :
    read depth .outside (text ++ rest) = put text (read depth .outside rest) := by
  induction htext generalizing depth rest with
  | nil => rw [List.nil_append, h.put_nil]
  | plain hc hcomma _ ih =>
    rw [List.cons_append, h.plain hc (fun heq => hdepth (hcomma heq)), ih hdepth, h.put_put]
    rfl
  | literal hquote hbody _ ih =>
    rw [List.cons_append, h.quote hquote, List.append_assoc, List.cons_append,
      h.literalBody (quote_cases hquote).1 hbody, ih hdepth, h.put_put, h.put_put]
    simp
  | group pair _ _ ihinner ih =>
    obtain ⟨hopens, hquote, hcloses, hnot, hquote'⟩ := pair_cases pair
    -- one bracket more is open inside
    rw [List.cons_append, h.opener hopens hquote, List.append_assoc,
      ihinner (fun _ => h.comma_succ depth), List.cons_append, h.closer hcloses hnot hquote',
      ih hdepth, h.put_put, h.put_put, h.put_put]
    simp

end PassesOver

theorem closing?_passesOver : PassesOver closing? behind (fun _ => True) where
  put_nil _ _ _ := behind_nil _
  put_put := behind_behind
  inner hinside depth c cs := by
    rw [closing?_cons (fun hout => hinside hout.1), if_neg (fun hout => hinside hout.1)]
  quote hquote depth cs := by
    obtain ⟨-, hopens, hcloses, -⟩ := quote_cases hquote
    rw [closing?_cons (by simp [hcloses]), if_neg (by simp [hopens]),
      Literal.next_outside_of_quote hquote]
  opener hopens hquote depth cs := by
    rw [closing?_cons (by simp [(opener_cases hopens).1]), if_pos ⟨rfl, hopens⟩,
      Literal.next_outside_of_not_quote hquote]
  closer hcloses _ _ depth cs := closing?_closer_succ hcloses depth cs
  plain hc _ cs := by
    obtain ⟨hquote, hopens, hcloses⟩ := isPlainText_iff.mp hc
    rw [closing?_cons (by simp [hcloses]), if_neg (by simp [hopens]),
      Literal.next_outside_of_not_quote hquote]
  comma_succ _ := trivial

/-- The search for a closing bracket passes over a nested text. -/
theorem closing?_nested {commas : Bool} {text : List Char} (h : Nested commas text) (depth : Nat)
    (rest : List Char) :
    closing? depth .outside (text ++ rest) = behind text (closing? depth .outside rest) :=
  closing?_passesOver.nested h (fun _ => trivial) rest

theorem splitFrom_passesOver : PassesOver splitFrom inFront (fun depth => 0 < depth) where
  put_nil := inFront_nil_splitFrom
  put_put := inFront_inFront
  inner hinside depth c cs := by
    rw [splitFrom_cons (fun hout => hinside hout.1), if_neg hinside]
  quote hquote depth cs := by
    obtain ⟨-, hopens, hcloses, hcomma⟩ := quote_cases hquote
    rw [splitFrom_cons (by simp [hcomma]), if_pos rfl, Literal.next_outside_of_quote hquote]
    simp [depthAfter, hopens, hcloses]
  opener hopens hquote depth cs := by
    rw [splitFrom_cons (by simp [(opener_cases hopens).2]), if_pos rfl,
      Literal.next_outside_of_not_quote hquote]
    simp [depthAfter, hopens]
  closer hcloses hopens hquote depth cs := by
    rw [splitFrom_cons (by simp), if_pos rfl, Literal.next_outside_of_not_quote hquote]
    simp [depthAfter, hopens, hcloses]
  plain hc hcomma cs := by
    obtain ⟨hquote, hopens, hcloses⟩ := isPlainText_iff.mp hc
    rw [splitFrom_cons (fun hstops => by have := hcomma hstops.2.2; omega), if_pos rfl,
      Literal.next_outside_of_not_quote hquote]
    simp [depthAfter, hopens, hcloses]
  comma_succ depth := Nat.succ_pos depth

/-- The split at commas passes over a nested text, one with commas if a bracket is open. -/
theorem splitFrom_nested {commas : Bool} {text : List Char} (h : Nested commas text) {depth : Nat}
    (hdepth : commas = true → 0 < depth) (rest : List Char) :
    splitFrom depth .outside (text ++ rest) = inFront text (splitFrom depth .outside rest) :=
  splitFrom_passesOver.nested h hdepth rest

/-- Nested texts without commas of their own are found again where commas joined them. -/
theorem splitTopLevel_glue {pieces : List (List Char)} (hne : pieces ≠ [])
    (h : ∀ piece ∈ pieces, Nested false piece) : splitTopLevel (glue [','] pieces) = pieces := by
  induction pieces with
  | nil => exact absurd rfl hne
  | cons piece rest ih =>
    have hpass : ∀ more, splitFrom 0 .outside (piece ++ more) =
        inFront piece (splitFrom 0 .outside more) :=
      splitFrom_nested (h piece List.mem_cons_self) (by simp)
    cases rest with
    | nil =>
      have hend := hpass []
      rw [List.append_nil] at hend
      rw [glue, splitTopLevel, hend]
      simp [inFront, splitFrom]
    | cons next rest =>
      have ih := ih (by simp) (fun p hp => h p (List.mem_cons_of_mem piece hp))
      rw [splitTopLevel] at ih
      simp only [glue, splitTopLevel, List.append_assoc, List.singleton_append]
      rw [hpass, splitFrom_comma, ih]
      simp [inFront]

end FlowScript.Source
