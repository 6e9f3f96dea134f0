import FlowScript.Source.Signature

/-!
# Names in signatures

No parameter and no returned item of a signature is empty, so every port of a function node has a
name.

## Main results

- `Source.foldl_widest_cases` — the widest of some lists is one of them
- `Signature.named` — the names of a signature are not empty
-/

namespace FlowScript

namespace Source

open Text

theorem ne_nil_of_mem_paramNames {params name : List Char} (h : name ∈ paramNames params) :
    name ≠ [] := by
  rintro rfl
  simp [paramNames] at h

theorem ne_nil_of_mem_returnedItems {line item : List Char} (h : item ∈ returnedItems line) :
    item ≠ [] := by
  rintro rfl
  unfold returnedItems at h
  dsimp only at h
  split at h
  · cases h
  · split at h
    · cases h
    · split at h
      · cases h
      · simp at h

theorem foldl_widest_cases (best : List (List Char)) (lists : List (List (List Char))) :
    lists.foldl widest best = best ∨ lists.foldl widest best ∈ lists := by
  induction lists generalizing best with
  | nil => exact Or.inl rfl
  | cons items rest ih =>
    rw [List.foldl_cons]
    rcases ih (widest best items) with h | h
    · rw [h]
      unfold widest
      split
      · exact Or.inr List.mem_cons_self
      · exact Or.inl rfl
    · exact Or.inr (List.mem_cons_of_mem _ h)

theorem ne_nil_of_mem_returnNames {code name : List Char} (h : name ∈ returnNames code) :
    name ≠ [] := by
  unfold returnNames at h
  rcases foldl_widest_cases [] ((cut '\n' code).map returnedItems) with hempty | hmem
  · rw [hempty] at h
    cases h
  · obtain ⟨line, -, hline⟩ := List.mem_map.mp hmem
    exact ne_nil_of_mem_returnedItems (hline ▸ h)

theorem ne_empty_of_mem_map {names : List (List Char)} (h : ∀ name ∈ names, name ≠ []) :
    ∀ name ∈ names.map String.ofList, name ≠ "" := by
  rintro _ hmem rfl
  obtain ⟨name, hname, hempty⟩ := List.mem_map.mp hmem
  exact h name hname (by simpa using hempty)

end Source

/-- The names of a signature are not empty. -/
theorem Signature.named (code : String) :
    (∀ name ∈ (ofSource code).inputs, name ≠ "") ∧
      ∀ name ∈ (ofSource code).outputs, name ≠ "" := by
  unfold ofSource
  split
  · simp
  · exact ⟨Source.ne_empty_of_mem_map (fun _ => Source.ne_nil_of_mem_paramNames),
      Source.ne_empty_of_mem_map (fun _ => Source.ne_nil_of_mem_returnNames)⟩

end FlowScript
