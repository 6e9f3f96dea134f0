import FlowScript.Proofs.Text.Lines
import FlowScript.Script.Collect
import Mathlib.Data.List.Nodup
import Mathlib.Data.List.TakeWhile

/-!
# Names that nodes and functions get

The names of nodes are made of word characters and differ from each other: among as many candidates
as there are names taken and one more, one is free. The names of functions are identifiers.

## Main definitions

- `IsWord` — a text of word characters
- `IsIdentifier` — a word that does not start with a digit

## Main results

- `freshName_not_mem` — a fresh name is not taken
- `nodeNames_nodup` — the names of the nodes differ
- `isIdentifier_of_functionName?` — a function is called by an identifier
-/

namespace FlowScript

/-- Every character of a text is a letter, a digit or an underscore. -/
def IsWord (s : String) : Prop :=
  ∀ c ∈ s.toList, isWordChar c = true

/-- A word that starts with a letter or an underscore. -/
structure IsIdentifier (s : String) : Prop where
  word : IsWord s
  start : ∃ c cs, s.toList = c :: cs ∧ Source.isIdentStart c = true

namespace IsWord

variable {s t : String}

theorem append (hs : IsWord s) (ht : IsWord t) : IsWord (s ++ t) := by
  intro c hc
  rw [String.toList_append, List.mem_append] at hc
  rcases hc with hc | hc
  · exact hs c hc
  · exact ht c hc

/-- A character that is no word character does not occur in a word. -/
theorem not_mem {c : Char} (hs : IsWord s) (hc : isWordChar c = false) : c ∉ s.toList := by
  intro h
  rw [hs c h] at hc
  cases hc

theorem oneLine (hs : IsWord s) : OneLine s :=
  hs.not_mem (by decide)

end IsWord

theorem isWord_sanitize (s : String) : IsWord (Script.sanitize s) := by
  intro c hc
  simp only [Script.sanitize, String.toList_ofList, List.mem_map] at hc
  obtain ⟨d, -, rfl⟩ := hc
  split
  · assumption
  · decide

theorem isWord_toString (n : Nat) : IsWord (toString n) := by
  intro c hc
  rw [Nat.toString_eq_repr, Nat.toList_repr] at hc
  have hd : c.isDigit = true := Nat.isDigit_of_mem_toDigits (by decide) (by decide) hc
  simp only [Char.isDigit, Bool.and_eq_true, decide_eq_true_eq] at hd
  simp only [isWordChar, Bool.or_eq_true, Bool.and_eq_true, decide_eq_true_eq]
  exact Or.inl (Or.inr hd)

theorem toString_injective {m n : Nat} (h : toString m = toString n) : m = n := by
  have hdigits : Nat.toDigits 10 m = Nat.toDigits 10 n := by
    simpa [Nat.toString_eq_repr, ← Nat.toList_repr] using congrArg String.toList h
  rw [← Nat.ofDigitChars_ten_toDigits (n := m), hdigits, Nat.ofDigitChars_ten_toDigits]

theorem IsIdentifier.append {s t : String} (hs : IsIdentifier s) (ht : IsWord t) :
    IsIdentifier (s ++ t) := by
  obtain ⟨c, cs, h, hc⟩ := hs.start
  exact ⟨hs.word.append ht, c, cs ++ t.toList, by rw [String.toList_append, h, List.cons_append], hc⟩

namespace Source

theorem isWordChar_of_isIdentChar {c : Char} (h : isIdentChar c = true) : isWordChar c = true := by
  simp only [isIdentChar, isIdentStart, isWordChar, Bool.or_eq_true] at h ⊢
  tauto

theorem isIdentChar_of_isIdentStart {c : Char} (h : isIdentStart c = true) :
    isIdentChar c = true := by
  simp [isIdentChar, h]

theorem isIdentifier_of_openingHere? {cs name rest : List Char}
    (h : openingHere? cs = some (name, rest)) : IsIdentifier (String.ofList name) := by
  unfold openingHere? at h
  split at h
  · cases h
  · next afterDef _ =>
    dsimp only at h
    split at h
    · cases h
    · split at h
      · cases h
      · next c tail htail =>
        split at h
        · next hstart =>
          split at h
          · obtain rfl : _ = name := congrArg Prod.fst (Option.some.inj h)
            rw [htail]
            refine ⟨?_, c, tail.takeWhile isIdentChar, ?_, hstart⟩
            · intro d hd
              rw [String.toList_ofList] at hd
              exact isWordChar_of_isIdentChar (List.mem_takeWhile_imp hd)
            · rw [String.toList_ofList, List.takeWhile_cons,
                if_pos (isIdentChar_of_isIdentStart hstart)]
          · cases h
        · cases h

theorem isIdentifier_of_opening? {cs name rest : List Char}
    (h : opening? cs = some (name, rest)) : IsIdentifier (String.ofList name) := by
  induction cs with
  | nil => cases h
  | cons c cs ih =>
    unfold opening? at h
    split at h
    · next hfound =>
      obtain rfl := Option.some.inj h
      exact isIdentifier_of_openingHere? hfound
    · exact ih h

end Source

/-- A function is called by an identifier. -/
theorem isIdentifier_of_functionName? {code name : String} (h : functionName? code = some name) :
    IsIdentifier name := by
  obtain ⟨⟨chars, rest⟩, hfound, rfl⟩ := Option.map_eq_some_iff.mp h
  exact Source.isIdentifier_of_opening? hfound

namespace Script

theorem isWord_candidate {base : String} (hb : IsWord base) (k : Nat) :
    IsWord (candidate base k) := by
  unfold candidate
  split
  · exact hb
  · exact (hb.append (by simp [IsWord, isWordChar])).append (isWord_toString _)

/-- Different numbers give different candidates. -/
theorem candidate_injective (base : String) : Function.Injective (candidate base) := by
  -- a candidate with a number is longer than the one without
  have hlength : ∀ k, k ≠ 0 → base.toList.length < (candidate base k).toList.length := by
    intro k hk
    simp [candidate, hk]
  intro j k h
  by_cases hj : j = 0 <;> by_cases hk : k = 0
  · rw [hj, hk]
  · have := hlength k hk
    rw [← h] at this
    simp [candidate, hj] at this
  · have := hlength j hj
    rw [h] at this
    simp [candidate, hk] at this
  · have hdigits : toString (j + 1) = toString (k + 1) := by
      simpa [candidate, hj, hk, String.append_assoc] using h
    exact Nat.succ.inj (toString_injective hdigits)

/-- One of the first `taken.length + 1` candidates is free. -/
theorem exists_free_candidate (base : String) (taken : List String) :
    ∃ name ∈ (List.range (taken.length + 1)).map (candidate base), name ∉ taken := by
  by_contra hnone
  push Not at hnone
  have hnodup : ((List.range (taken.length + 1)).map (candidate base)).Nodup :=
    List.nodup_range.map (candidate_injective base)
  -- there would be more candidates than names that are taken
  have hle := hnodup.length_le_of_subset hnone
  simp only [List.length_map, List.length_range] at hle
  omega

/-- A fresh name is the first of the candidates that is not taken. -/
theorem find?_candidate (base : String) (taken : List String) :
    ((List.range (taken.length + 1)).map (candidate base)).find?
      (fun name => !taken.contains name) = some (freshName base taken) := by
  obtain ⟨name, hname, hfree⟩ := exists_free_candidate base taken
  have hsome : (((List.range (taken.length + 1)).map (candidate base)).find?
      (fun name => !taken.contains name)).isSome = true := by
    rw [List.find?_isSome]
    exact ⟨name, hname, by simpa using hfree⟩
  obtain ⟨found, hfound⟩ := Option.isSome_iff_exists.mp hsome
  simp only [freshName, hfound, Option.getD_some]

/-- A fresh name is a candidate that is not taken. -/
theorem freshName_spec (base : String) (taken : List String) :
    (∃ k, freshName base taken = candidate base k) ∧ freshName base taken ∉ taken := by
  have hfound := find?_candidate base taken
  refine ⟨?_, by simpa using List.find?_some hfound⟩
  obtain ⟨k, -, hk⟩ := List.mem_map.mp (List.mem_of_find?_eq_some hfound)
  exact ⟨k, hk.symm⟩

theorem freshName_not_mem (base : String) (taken : List String) : freshName base taken ∉ taken :=
  (freshName_spec base taken).2

theorem isWord_freshName {base : String} (hb : IsWord base) (taken : List String) :
    IsWord (freshName base taken) := by
  obtain ⟨k, hk⟩ := (freshName_spec base taken).1
  rw [hk]
  exact isWord_candidate hb k

theorem namesFor_length (taken ids : List String) : (namesFor taken ids).length = ids.length := by
  induction ids generalizing taken with
  | nil => rfl
  | cons id rest ih => simp [namesFor, ih]

theorem isWord_of_mem_namesFor {taken ids : List String} {name : String}
    (h : name ∈ namesFor taken ids) : IsWord name := by
  induction ids generalizing taken with
  | nil => cases h
  | cons id rest ih =>
    rcases List.mem_cons.mp h with rfl | h
    · exact isWord_freshName (isWord_sanitize id) taken
    · exact ih h

/-- Names that are handed out are not taken. -/
theorem not_mem_namesFor {taken ids : List String} {name : String} (h : name ∈ taken) :
    name ∉ namesFor taken ids := by
  induction ids generalizing taken with
  | nil => simp [namesFor]
  | cons id rest ih =>
    intro hmem
    rcases List.mem_cons.mp hmem with heq | hmem
    · exact freshName_not_mem (sanitize id) taken (heq ▸ h)
    · exact ih (List.mem_cons_of_mem _ h) hmem

theorem namesFor_nodup (taken ids : List String) : (namesFor taken ids).Nodup := by
  induction ids generalizing taken with
  | nil => exact List.nodup_nil
  | cons id rest ih => exact List.nodup_cons.mpr ⟨not_mem_namesFor List.mem_cons_self, ih _⟩

/-- The names of the nodes differ, whatever their ids are. -/
theorem nodeNames_nodup (nodes : List Node) : (nodeNames nodes).Nodup :=
  namesFor_nodup _ _

theorem nodeNames_length (nodes : List Node) : (nodeNames nodes).length = nodes.length := by
  simp [nodeNames, namesFor_length]

theorem isWord_of_mem_nodeNames {nodes : List Node} {name : String} (h : name ∈ nodeNames nodes) :
    IsWord name :=
  isWord_of_mem_namesFor h

end Script

end FlowScript
