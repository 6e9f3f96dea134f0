import FlowScript.Proofs.Json.Numbers
import FlowScript.Time.Calendar

/-!
# The text of a stamp

A stamp of universal time is made of digits, signs and the letters `T` and `Z`, the `Z` at its end
only. So it stays on one line, needs no escape in a literal, and ends where its `Z` stands.

## Main results

- `exists_stamp_eq` — the characters of a stamp of universal time
-/

namespace FlowScript.Moment

open Text

/-- The characters of a stamp in front of its zone. -/
def isStampChar (c : Char) : Bool :=
  isDigit c || c == '-' || c == ':' || c == 'T'

theorem isStampChar_of_isDigit {c : Char} (h : isDigit c = true) : isStampChar c = true := by
  simp [isStampChar, h]

theorem isStampChar_of_mem_padded {width n : Nat} {c : Char} (h : c ∈ padded width n) :
    isStampChar c = true := by
  induction width generalizing n with
  | zero => cases h
  | succ width ih =>
    rcases List.mem_append.mp h with h | h
    · exact ih h
    · have hdigits : ∀ k < 10, isStampChar (Char.ofNat (48 + k)) = true := by decide
      rw [List.mem_singleton.mp h]
      exact hdigits _ (Nat.mod_lt n (by decide))

theorem isStampChar_of_mem_yearChars {year : Int} {c : Char} (h : c ∈ yearChars year) :
    isStampChar c = true := by
  have hdigits : ∀ c ∈ List.replicate (4 - (decimal year.natAbs).length) '0' ++ decimal year.natAbs,
      isStampChar c = true := by
    intro c hc
    rcases List.mem_append.mp hc with hc | hc
    · rw [(List.mem_replicate.mp hc).2]
      rfl
    · exact isStampChar_of_isDigit (Json.isDigit_of_mem_decimal hc)
  unfold yearChars at h
  split at h
  · rcases List.mem_cons.mp h with rfl | h
    · rfl
    · exact hdigits c h
  · exact hdigits c h

/-- A stamp of universal time ends with the zone, which stands nowhere else in it. -/
theorem exists_stamp_eq (m : Moment) :
    ∃ front, m.utc.stamp.toList = front ++ ['Z'] ∧ front ≠ [] ∧
      ∀ c ∈ front, isStampChar c = true := by
  have hpadded : ∀ width n, ∀ c ∈ padded width n, isStampChar c = true :=
    fun _ _ _ => isStampChar_of_mem_padded
  have htime : ∀ c ∈ m.utc.timeChars, isStampChar c = true := by
    simp only [timeChars, List.forall_mem_append, List.forall_mem_cons]
    exact ⟨⟨hpadded 2 _, rfl, hpadded 2 _⟩, rfl, hpadded 2 _⟩
  refine ⟨yearChars m.utc.date.year ++ '-' :: padded 2 m.utc.date.month ++ '-' ::
    padded 2 m.utc.date.day ++ 'T' :: m.utc.timeChars, ?_, by simp, ?_⟩
  · rw [stamp, String.toList_ofList, stampWith, List.append_nil]
    rfl
  · simp only [List.forall_mem_append, List.forall_mem_cons]
    exact ⟨⟨⟨fun _ => isStampChar_of_mem_yearChars, rfl, hpadded 2 _⟩, rfl, hpadded 2 _⟩, rfl, htime⟩

end FlowScript.Moment
