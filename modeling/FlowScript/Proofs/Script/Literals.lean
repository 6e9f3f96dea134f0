import FlowScript.Proofs.Flow.Minting
import FlowScript.Proofs.Json.Strings
import FlowScript.Proofs.Script.LiteralSyntax
import FlowScript.Proofs.Text.SourceLines
import FlowScript.Script.Literal
import Mathlib.Data.Bool.AllAny

/-!
# User text in literals

The literals of a script stand for the texts they are written for. Both ways of writing are read
back character by character: what stands for one character is read as that character, whatever
follows it.

## Main results

- `readLiteral_escape_append` — the body of a string literal is read as its text
- `readLiteral_formatText_append` — so is the fixed part of a formatted string
- `isSource_formatText` — the fixed part of a formatted string holds the null characters of its text
-/

namespace FlowScript.Script

open Text

/-! ## String literals -/

theorem not_control_of_mem_hex {width n : Nat} {c : Char} (h : c ∈ hex width n) :
    ¬ c.toNat < 0x20 := by
  obtain ⟨k, hk, rfl⟩ := mem_hex h
  have hdigits : ∀ k < 16, ¬ (hexDigit k).toNat < 0x20 := by decide
  exact hdigits k hk

theorem not_control_of_mem_escapeChar {markup : Json.Markup} {c d : Char}
    (h : d ∈ Json.escapeChar markup c) : ¬ d.toNat < 0x20 := by
  have hshort : ∀ s ∈ Json.shortEscapes, ¬ s.toNat < 0x20 :=
    List.all_iff_forall_prop.mp (by decide)
  rcases Json.escapeChar_cases markup c with ⟨heq, -, -, hc⟩ | ⟨s, hs, heq, -⟩ | ⟨heq, -⟩
  · rw [heq, List.mem_singleton] at h
    rwa [h]
  · rw [heq, List.mem_cons, List.mem_singleton] at h
    rcases h with rfl | rfl
    · decide
    · exact hshort d hs
  · rw [heq, Json.unicodeEscape, List.mem_cons, List.mem_cons] at h
    rcases h with rfl | rfl | h
    · decide
    · decide
    · exact not_control_of_mem_hex h

/-- A string literal holds no control characters. -/
theorem not_control_of_mem_stringLiteral {s : List Char} {c : Char} (h : c ∈ stringLiteral s) :
    ¬ c.toNat < 0x20 := by
  rw [stringLiteral, Json.literal, List.mem_cons, List.mem_append, List.mem_singleton] at h
  rcases h with rfl | h | rfl
  · decide
  · obtain ⟨d, -, hd⟩ := List.mem_flatMap.mp h
    exact not_control_of_mem_escapeChar hd
  · decide

theorem unbroken_stringLiteral (s : List Char) : Unbroken (stringLiteral s) := by
  rw [unbroken_iff]
  exact ⟨fun h => not_control_of_mem_stringLiteral h (by decide),
    fun h => not_control_of_mem_stringLiteral h (by decide)⟩

theorem isSource_stringLiteral (s : List Char) : IsSource (stringLiteral s) :=
  fun h => not_control_of_mem_stringLiteral h (by decide)

/-- Four digits of a code point are read as its character. -/
theorem codePoint?_hex (c : Char) (hc : c.toNat < 0x10000) (cs : List Char) :
    codePoint? 4 (hex 4 c.toNat ++ cs) = some c := by
  obtain ⟨d₁, d₂, d₃, d₄, hhex, hvalue⟩ := Json.exists_hex_four hc
  have hfold : [d₁, d₂, d₃, d₄].foldlM (fun n c => (hexValue? c).map (n * 16 + ·)) 0 =
      some c.toNat := by
    simp only [Json.hex4?, Option.bind_eq_bind, Option.pure_def, Option.bind_eq_some_iff,
      Option.some.injEq] at hvalue
    obtain ⟨v₁, h₁, v₂, h₂, v₃, h₃, v₄, h₄, hsum⟩ := hvalue
    simp only [List.foldlM_cons, List.foldlM_nil, h₁, h₂, h₃, h₄, Option.map_some,
      Option.bind_eq_bind, Option.bind_some, Option.pure_def, Option.some.injEq]
    omega
  have hvalid : c.toNat.isValidChar := c.valid
  rw [codePoint?, hhex]
  simp only [List.cons_append, List.nil_append, List.take_succ_cons, List.take_zero]
  rw [hfold]
  simp [hvalid]

theorem readLiteral_escapeChar (c : Char) (cs : List Char) :
    readLiteral .short (Json.escapeChar .plain c ++ cs) =
      putFront [.char c] (readLiteral .short cs) := by
  rcases Json.escapeChar_cases .plain c with ⟨heq, hquote, hslash, hc⟩ | ⟨s, hs, heq, -, hsign⟩ |
    ⟨heq, hc⟩
  · have hfeed : c ≠ '\n' := by
      rintro rfl
      exact hc (by decide)
    have hreturn : c ≠ '\r' := by
      rintro rfl
      exact hc (by decide)
    rw [heq]
    exact readLiteral_plain (by simp [isPlain, hslash, hfeed, hreturn]) hquote cs
  · have hsigns : ∀ s ∈ Json.shortEscapes, s = '/' ∨ signEscape? s = some (Json.shortEscape s) :=
      List.all_iff_forall_prop.mp (by decide)
    rcases hsigns s hs with rfl | hread
    · -- a stroke is not escaped
      subst hsign
      exact absurd heq (by decide)
    · rw [heq, List.cons_append, List.singleton_append, readLiteral_sign hread, hsign]
  · have hread : escape? .short ('u' :: (hex 4 c.toNat ++ cs)) =
        (codePoint? 4 (hex 4 c.toNat ++ cs)).map (fun d => ([d], cs)) := rfl
    rw [codePoint?_hex c hc] at hread
    rw [heq]
    exact readLiteral_escape hread

/-- The body of a string literal is read as its text. -/
theorem readLiteral_escape_append (s cs : List Char) :
    readLiteral .short (Json.escape .plain s ++ cs) =
      putFront (pieces s) (readLiteral .short cs) := by
  induction s with
  | nil => exact (putFront_nil _).symm
  | cons c s ih =>
    rw [Json.escape, List.flatMap_cons, List.append_assoc, readLiteral_escapeChar]
    exact (congrArg (putFront [.char c]) ih).trans (putFront_putFront _ _ _)

/-- Behind its opening quotes a string literal is read to its end. -/
theorem exists_stringLiteral_eq (s : List Char) :
    ∃ inside, stringLiteral s = '"' :: inside ∧ readLiteral .short inside = some (pieces s, []) := by
  refine ⟨Json.escape .plain s ++ ['"'], rfl, ?_⟩
  have hclosed : Quoting.closed? .short ['"'] = some [] := rfl
  rw [readLiteral_escape_append, readLiteral_closed hclosed, putFront_some, List.append_nil]

/-! ## Formatted strings -/

/-- A character is written as it is, by a letter or a sign behind a backslash, or twice. -/
theorem formatChar_cases (c : Char) :
    (formatChar c = [c] ∧ isPlain .format c = true ∧ c ≠ '"') ∨
    (∃ s ∈ "\\\"nr".toList, formatChar c = ['\\', s] ∧ signEscape? s = some c) ∨
    (formatChar c = [c, c] ∧ (c = '\x7b' ∨ c = '\x7d')) := by
  unfold formatChar
  split
  · next h => exact Or.inr (Or.inl ⟨'\\', by decide, rfl, by rw [eq_of_beq h]; rfl⟩)
  split
  · next h => exact Or.inr (Or.inl ⟨'"', by decide, rfl, by rw [eq_of_beq h]; rfl⟩)
  split
  · next h => exact Or.inr (Or.inr ⟨by rw [eq_of_beq h], Or.inl (eq_of_beq h)⟩)
  split
  · next h => exact Or.inr (Or.inr ⟨by rw [eq_of_beq h], Or.inr (eq_of_beq h)⟩)
  split
  · next h => exact Or.inr (Or.inl ⟨'n', by decide, rfl, by rw [eq_of_beq h]; rfl⟩)
  split
  · next h => exact Or.inr (Or.inl ⟨'r', by decide, rfl, by rw [eq_of_beq h]; rfl⟩)
  · next hslash hquote hopen hclose hfeed hreturn =>
    rw [beq_iff_eq] at hslash hquote hopen hclose hfeed hreturn
    exact Or.inl ⟨rfl, by simp [isPlain, hslash, hopen, hclose, hfeed, hreturn], hquote⟩

theorem unbroken_formatText (s : List Char) : Unbroken (formatText s) := by
  intro d hd
  obtain ⟨c, -, hmem⟩ := List.mem_flatMap.mp hd
  rcases formatChar_cases c with ⟨heq, hplain, -⟩ | ⟨s, hs, heq, -⟩ | ⟨heq, hc⟩
  · rw [heq, List.mem_singleton] at hmem
    simp only [isPlain, Bool.and_eq_true, bne_iff_ne, ne_eq] at hplain
    simp [isLineEnd, hmem, hplain]
  · have hsigns : ∀ s ∈ "\\\"nr".toList, isLineEnd s = false :=
      List.all_iff_forall_prop.mp (by decide)
    rw [heq, List.mem_cons, List.mem_singleton] at hmem
    rcases hmem with rfl | rfl
    · rfl
    · exact hsigns d hs
  · have hbrace : d = c := by simpa [heq] using hmem
    rcases hc with hc | hc
    · rw [hbrace, hc]
      rfl
    · rw [hbrace, hc]
      rfl

theorem null_mem_formatChar {c : Char} : '\x00' ∈ formatChar c ↔ '\x00' = c := by
  rcases formatChar_cases c with ⟨heq, -⟩ | ⟨s, hs, heq, hsign⟩ | ⟨heq, -⟩
  · rw [heq, List.mem_singleton]
  · have hsigns : ∀ s ∈ "\\\"nr".toList, '\x00' ∉ ['\\', s] ∧ signEscape? s ≠ some '\x00' :=
      List.all_iff_forall_prop.mp (by decide)
    obtain ⟨hmem, hne⟩ := hsigns s hs
    rw [heq, iff_false_left hmem]
    rintro rfl
    exact hne hsign
  · simp [heq]

/-- The fixed part of a formatted string holds the null characters of its text. -/
theorem isSource_formatText {s : List Char} : IsSource (formatText s) ↔ IsSource s := by
  simp [IsSource, formatText, null_mem_formatChar]

theorem readLiteral_formatChar (c : Char) (cs : List Char) :
    readLiteral .format (formatChar c ++ cs) = putFront [.char c] (readLiteral .format cs) := by
  rcases formatChar_cases c with ⟨heq, hplain, hquote⟩ | ⟨s, -, heq, hsign⟩ | ⟨heq, rfl | rfl⟩
  · rw [heq]
    exact readLiteral_plain hplain hquote cs
  · rw [heq]
    exact readLiteral_sign hsign cs
  · exact readLiteral_next (closed?_cons_of_ne (by decide) _) rfl
  · exact readLiteral_next (closed?_cons_of_ne (by decide) _) rfl

/-- The fixed part of a formatted string is read as its text. -/
theorem readLiteral_formatText_append (s cs : List Char) :
    readLiteral .format (formatText s ++ cs) = putFront (pieces s) (readLiteral .format cs) := by
  induction s with
  | nil => exact (putFront_nil _).symm
  | cons c s ih =>
    rw [formatText, List.flatMap_cons, List.append_assoc, readLiteral_formatChar]
    exact (congrArg (putFront [.char c]) ih).trans (putFront_putFront _ _ _)

theorem isAlphanum_of_isWordChar {c : Char} (h : isWordChar c = true) :
    (c.isAlphanum || c == '_') = true := by
  have hlower (h : 'a' ≤ c ∧ c ≤ 'z') : c.isLower = true :=
    Bool.and_eq_true_iff.mpr ⟨decide_eq_true h.1, decide_eq_true h.2⟩
  have hupper (h : 'A' ≤ c ∧ c ≤ 'Z') : c.isUpper = true := decide_eq_true h
  have hdigit (h : '0' ≤ c ∧ c ≤ '9') : c.isDigit = true :=
    Bool.and_eq_true_iff.mpr ⟨decide_eq_true h.1, decide_eq_true h.2⟩
  rw [show c.isAlphanum = (c.isUpper || c.isLower || c.isDigit) from rfl]
  simp only [isWordChar, Bool.or_eq_true, Bool.and_eq_true, decide_eq_true_eq] at h ⊢
  rcases h with ((h | h) | h) | h
  · exact Or.inl (Or.inl (Or.inr (hlower h)))
  · exact Or.inl (Or.inl (Or.inl (hupper h)))
  · exact Or.inl (Or.inr (hdigit h))
  · exact Or.inr h

/-- A word between single braces is a field. -/
theorem readLiteral_field {v : List Char} (hword : ∀ c ∈ v, isWordChar c = true) (hne : v ≠ [])
    (cs : List Char) :
    readLiteral .format ('\x7b' :: (v ++ '\x7d' :: cs)) =
      putFront [.field v] (readLiteral .format cs) := by
  obtain ⟨hname, -⟩ := Source.takeWhile_append_stop ('\x7d' :: cs)
    (fun c hc => isAlphanum_of_isWordChar (hword c hc))
    (fun c hc => by
      obtain rfl := Option.some.inj hc
      decide)
  have hbrace : brace? '\x7b' (v ++ '\x7d' :: cs) = some (.field v, cs) := by
    obtain ⟨d, ds, rfl⟩ := List.exists_cons_of_ne_nil hne
    have hd : (d == '\x7b') = false := by
      rw [beq_eq_false_iff_ne]
      rintro rfl
      exact absurd (hword _ List.mem_cons_self) (by decide)
    rw [List.cons_append] at hname ⊢
    simp only [brace?, hd, Bool.false_eq_true, if_false, beq_self_eq_true, if_true, hname]
    rw [← List.cons_append, List.drop_left]
    simp [dropFront?]
  refine readLiteral_next (closed?_cons_of_ne (by decide) _) ?_
  simp [next?, hbrace]

end FlowScript.Script
