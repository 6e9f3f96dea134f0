import FlowScript.Proofs.Source.Headers

/-!
# The first occurrence of a pattern

Where the first occurrence of a pattern stands in a text that is put together from parts: a character
that is not in the pattern keeps it inside the parts, and a front without the first character of the
pattern is passed over.

## Main results

- `cutFirst?_append_sep` — a separator keeps the first occurrence in front of it or behind it
- `cutFirst?_append_of_free` — a front where the pattern cannot begin is kept
-/

namespace FlowScript.Text

variable {pattern : List Char} {c : Char}

/-- A pattern without the separator is found at the front of a text alike with and without what is
behind the separator. -/
theorem dropFront?_append_sep (hc : c ∉ pattern) (xs ys : List Char) :
    dropFront? pattern (xs ++ c :: ys) = (dropFront? pattern xs).map (· ++ c :: ys) := by
  induction pattern generalizing xs with
  | nil => rfl
  | cons p pattern ih =>
    cases xs with
    | nil =>
      have hp : (p == c) = false := by
        rw [beq_eq_false_iff_ne]
        rintro rfl
        exact hc List.mem_cons_self
      simp [dropFront?, hp]
    | cons x xs =>
      have ih := ih (fun h => hc (List.mem_cons_of_mem p h)) xs
      by_cases hx : p == x
      · simp [dropFront?, hx, ih]
      · simp [dropFront?, hx]

/-- A separator keeps the first occurrence in front of it or behind it. -/
theorem cutFirst?_append_sep (hne : pattern ≠ []) (hc : c ∉ pattern) (xs ys : List Char) :
    cutFirst? pattern (xs ++ c :: ys) =
      match cutFirst? pattern xs with
      | some (before, after) => some (before, after ++ c :: ys)
      | none => (cutFirst? pattern ys).map (fun (before, after) => (xs ++ c :: before, after)) := by
  have hempty : pattern.isEmpty = false := by simpa using hne
  induction xs with
  | nil =>
    have hdrop : dropFront? pattern (c :: ys) = none := by
      have hnil : dropFront? pattern [] = none := by
        cases pattern with
        | nil => exact absurd rfl hne
        | cons p pattern => rfl
      rw [← List.nil_append (c :: ys), dropFront?_append_sep hc, hnil, Option.map_none]
    have hnone : cutFirst? pattern [] = none := by simp [cutFirst?, hempty]
    rw [List.nil_append, hnone, cutFirst?, hdrop]
    rfl
  | cons x xs ih =>
    rw [List.cons_append, cutFirst?, ← List.cons_append, dropFront?_append_sep hc, cutFirst?]
    cases hdrop : dropFront? pattern (x :: xs) with
    | some rest => rfl
    | none =>
      simp only [Option.map_none, ih]
      cases cutFirst? pattern xs with
      | some cut => rfl
      | none => cases cutFirst? pattern ys <;> rfl

/-- A front that does not hold the first character of the pattern is kept. -/
theorem cutFirst?_append_of_free {p : Char} {front : List Char} (hp : p ∉ front)
    (ps xs : List Char) :
    cutFirst? (p :: ps) (front ++ xs) =
      (cutFirst? (p :: ps) xs).map (fun (before, after) => (front ++ before, after)) := by
  induction front with
  | nil => simp
  | cons x front ih =>
    have hx : (p == x) = false := by
      rw [beq_eq_false_iff_ne]
      rintro rfl
      exact hp List.mem_cons_self
    rw [List.cons_append, cutFirst?, ih (fun h => hp (List.mem_cons_of_mem x h))]
    simp only [dropFront?, hx, Bool.false_eq_true, if_false]
    cases cutFirst? (p :: ps) xs <;> rfl

/-- A pattern at the front is the first occurrence. -/
theorem cutFirst?_append_self (hne : pattern ≠ []) (xs : List Char) :
    cutFirst? pattern (pattern ++ xs) = some ([], xs) := by
  have hdrop : dropFront? pattern (pattern ++ xs) = some xs := Source.dropFront?_eq_some_iff.mpr rfl
  obtain ⟨p, ps, rfl⟩ := List.exists_cons_of_ne_nil hne
  rw [List.cons_append] at hdrop ⊢
  rw [cutFirst?, hdrop]

theorem cutFirst?_eq_none_of_free {p : Char} {xs : List Char} (hp : p ∉ xs) (ps : List Char) :
    cutFirst? (p :: ps) xs = none := by
  simpa [cutFirst?] using cutFirst?_append_of_free hp ps []

theorem cutFirst?_eq_some {xs before after : List Char}
    (h : cutFirst? pattern xs = some (before, after)) : xs = before ++ pattern ++ after := by
  induction xs generalizing before with
  | nil =>
    rw [cutFirst?] at h
    split at h
    · next hempty =>
      cases h
      simpa using hempty
    · cases h
  | cons x xs ih =>
    rw [cutFirst?] at h
    split at h
    · next rest hdrop =>
      cases h
      exact Source.dropFront?_eq_some_iff.mp hdrop
    · obtain ⟨cut, hcut, heq⟩ := Option.map_eq_some_iff.mp h
      cases heq
      rw [ih hcut]
      rfl

/-- A pattern that fits into a text is found at its front alike when text is added behind. -/
theorem dropFront?_append {xs : List Char} (h : pattern.length ≤ xs.length) (ys : List Char) :
    dropFront? pattern (xs ++ ys) = (dropFront? pattern xs).map (· ++ ys) := by
  induction pattern generalizing xs with
  | nil => rfl
  | cons p pattern ih =>
    cases xs with
    | nil => simp at h
    | cons x xs =>
      have ih := ih (Nat.le_of_succ_le_succ h)
      by_cases hx : p == x
      · simp [dropFront?, hx, ih]
      · simp [dropFront?, hx]

/-- The first occurrence stays the first when text is added behind. -/
theorem cutFirst?_append_of_eq_some {xs before after : List Char}
    (h : cutFirst? pattern xs = some (before, after)) (ys : List Char) :
    cutFirst? pattern (xs ++ ys) = some (before, after ++ ys) := by
  induction xs generalizing before with
  | nil =>
    rw [cutFirst?] at h
    split at h
    · next hempty =>
      cases h
      obtain rfl : pattern = [] := by simpa using hempty
      cases ys <;> rfl
    · cases h
  | cons x xs ih =>
    have hfits : pattern.length ≤ (x :: xs).length := by
      rw [cutFirst?_eq_some h]
      simp only [List.length_append]
      omega
    rw [cutFirst?] at h
    rw [List.cons_append, cutFirst?, ← List.cons_append, dropFront?_append hfits]
    cases hdrop : dropFront? pattern (x :: xs) with
    | some rest =>
      rw [hdrop] at h
      cases h
      rfl
    | none =>
      rw [hdrop] at h
      obtain ⟨cut, hcut, heq⟩ := Option.map_eq_some_iff.mp h
      cases heq
      simp [ih hcut]

theorem replaceFirst_append {xs : List Char} (h : contains pattern xs = true) (by_ ys : List Char) :
    replaceFirst pattern by_ (xs ++ ys) = replaceFirst pattern by_ xs ++ ys := by
  obtain ⟨⟨before, after⟩, hcut⟩ := Option.isSome_iff_exists.mp h
  rw [replaceFirst, replaceFirst, hcut, cutFirst?_append_of_eq_some hcut]
  simp

theorem contains_append_self (xs ys : List Char) : contains pattern (xs ++ (pattern ++ ys)) = true := by
  induction xs with
  | nil =>
    cases pattern with
    | nil => cases ys <;> rfl
    | cons p ps => rw [List.nil_append, contains, cutFirst?_append_self (List.cons_ne_nil p ps)]; rfl
  | cons x xs ih =>
    rw [contains, List.cons_append, cutFirst?]
    cases dropFront? pattern (x :: (xs ++ (pattern ++ ys))) with
    | some rest => rfl
    | none =>
      rw [Option.isSome_map]
      exact ih

/-- Replacing brings in no characters but those of the text and of what is put in. -/
theorem mem_replaceFirst {by_ xs : List Char} {x : Char} (h : x ∈ replaceFirst pattern by_ xs) :
    x ∈ xs ∨ x ∈ by_ := by
  unfold replaceFirst at h
  split at h
  · next before after hcut =>
    rw [cutFirst?_eq_some hcut]
    simp only [List.mem_append] at h ⊢
    tauto
  · exact Or.inl h

end FlowScript.Text
