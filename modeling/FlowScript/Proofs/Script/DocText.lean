import FlowScript.Proofs.Script.LiteralSyntax
import FlowScript.Proofs.Text.Lines
import FlowScript.Proofs.Text.SourceLines
import FlowScript.Script.Literal

/-!
# User text in a documentation string

Three rewrites prepare a text for the documentation string at the top: backslashes are doubled, three
quotes in a row are escaped, and the words are set apart by single spaces. They can be made in one
pass over the remark of the text, which shows that the string is read back as the remark.

## Main definitions

- `escapeDoc` — the escapes of a documentation string, in one pass

## Main results

- `docText_eq` — the rewrites escape the remark
- `readLiteral_docText_append` — the text is read as its remark, whatever follows but a quote
-/

namespace FlowScript.Script

open Text

/-- A text with its backslashes and its triple quotes escaped. -/
def escapeDoc : List Char → List Char
  | [] => []
  | '"' :: '"' :: '"' :: cs => '\\' :: '"' :: '\\' :: '"' :: '\\' :: '"' :: escapeDoc cs
  | '\\' :: cs => '\\' :: '\\' :: escapeDoc cs
  | c :: cs => c :: escapeDoc cs

/-- A text with its backslashes doubled. -/
def doubled (s : List Char) : List Char :=
  s.flatMap (fun c => if c == '\\' then ['\\', '\\'] else [c])

theorem doubled_cons_of_ne {c : Char} (h : c ≠ '\\') (cs : List Char) :
    doubled (c :: cs) = c :: doubled cs := by
  simp [doubled, h]

theorem doubled_slash (cs : List Char) : doubled ('\\' :: cs) = '\\' :: '\\' :: doubled cs := by
  simp [doubled]

/-- Doubling backslashes neither makes nor hides a quote at the front. -/
theorem exists_of_doubled_eq_quote {cs rest : List Char} (h : doubled cs = '"' :: rest) :
    ∃ cs', cs = '"' :: cs' ∧ doubled cs' = rest := by
  cases cs with
  | nil => cases h
  | cons c cs =>
    by_cases hc : c = '\\'
    · rw [hc, doubled_slash] at h
      exact absurd (List.cons.inj h).1 (by decide)
    · rw [doubled_cons_of_ne hc] at h
      obtain ⟨rfl, hrest⟩ := List.cons.inj h
      exact ⟨cs, rfl, hrest⟩

theorem replaceAllWithin_keep {pattern by_ cs : List Char} {c : Char} {n : Nat}
    (h : dropFront? pattern (c :: cs) = none) :
    replaceAllWithin pattern by_ (n + 1) (c :: cs) = c :: replaceAllWithin pattern by_ n cs := by
  rw [replaceAllWithin, h]

theorem replaceAllWithin_doubled (s : List Char) {n : Nat} (hn : (doubled s).length ≤ n) :
    replaceAllWithin ['"', '"', '"'] ['\\', '"', '\\', '"', '\\', '"'] n (doubled s) =
      escapeDoc s := by
  fun_induction escapeDoc s generalizing n with
  | case1 => cases n <;> rfl
  | case2 cs ih =>
    simp only [doubled_cons_of_ne (show '"' ≠ '\\' by decide), List.length_cons] at hn ⊢
    obtain ⟨n, rfl⟩ := Nat.exists_eq_succ_of_ne_zero (show n ≠ 0 by omega)
    have ih := ih (n := n) (by omega)
    rw [← ih]
    rfl
  | case3 cs ih =>
    simp only [doubled_slash, List.length_cons] at hn ⊢
    obtain ⟨n, rfl⟩ := Nat.exists_eq_add_of_le' (show 2 ≤ n by omega)
    have ih := ih (n := n) (by omega)
    rw [← ih]
    rfl
  | case4 c cs hquotes hslash ih =>
    have hc : c ≠ '\\' := fun h => hslash h
    rw [doubled_cons_of_ne hc] at hn ⊢
    simp only [List.length_cons] at hn
    obtain ⟨n, rfl⟩ := Nat.exists_eq_succ_of_ne_zero (show n ≠ 0 by omega)
    have hnone : dropFront? ['"', '"', '"'] (c :: doubled cs) = none := by
      refine Option.eq_none_iff_forall_not_mem.mpr ?_
      intro rest hrest
      obtain ⟨rfl, hcs⟩ := List.cons.inj (Source.dropFront?_eq_some_iff.mp hrest)
      obtain ⟨cs', rfl, hcs'⟩ := exists_of_doubled_eq_quote hcs
      obtain ⟨cs'', rfl, -⟩ := exists_of_doubled_eq_quote hcs'
      exact hquotes cs'' rfl rfl
    rw [replaceAllWithin_keep hnone, ih (by omega)]

/-! ## Words -/

/-- A quote in front of a text that does not start with one stands in front of its front. -/
theorem exists_of_append_eq_quote {cs tail rest : List Char} (htail : tail.head? ≠ some '"')
    (h : cs ++ tail = '"' :: rest) : ∃ cs', cs = '"' :: cs' ∧ cs' ++ tail = rest := by
  cases cs with
  | nil =>
    rw [List.nil_append] at h
    exact absurd (by rw [h, List.head?_cons]) htail
  | cons c cs =>
    obtain ⟨rfl, hrest⟩ := List.cons.inj h
    exact ⟨cs, rfl, hrest⟩

/-- A character that is neither a quote nor a backslash separates what is escaped. -/
theorem escapeDoc_append_cons {c : Char} (hquote : c ≠ '"') (hslash : c ≠ '\\') (as bs : List Char) :
    escapeDoc (as ++ c :: bs) = escapeDoc as ++ c :: escapeDoc bs := by
  have htail : (c :: bs).head? ≠ some '"' := by simpa using hquote
  fun_induction escapeDoc as with
  | case1 =>
    rw [List.nil_append, escapeDoc, List.nil_append]
    · rintro cs rfl
      exact absurd rfl hquote
    · exact hslash
  | case2 cs ih => simp only [List.cons_append, escapeDoc, ih]
  | case3 cs ih => simp only [List.cons_append, escapeDoc, ih]
  | case4 d cs hquotes hslash' ih =>
    rw [List.cons_append, escapeDoc, ih, List.cons_append]
    · intro cs' hd hcs
      obtain ⟨cs₁, rfl, hcs₁⟩ := exists_of_append_eq_quote htail hcs
      obtain ⟨cs₂, rfl, -⟩ := exists_of_append_eq_quote htail hcs₁
      exact hquotes cs₂ hd rfl
    · exact hslash'

theorem mem_escapeDoc {s : List Char} {c : Char} (h : c ∈ escapeDoc s) : c ∈ s ∨ c = '\\' := by
  fun_induction escapeDoc s with
  | case1 => cases h
  | case2 cs ih =>
    simp only [List.mem_cons] at h ⊢
    tauto
  | case3 cs ih =>
    simp only [List.mem_cons] at h ⊢
    tauto
  | case4 d cs hquotes hslash ih =>
    simp only [List.mem_cons] at h ⊢
    tauto

theorem escapeDoc_eq_nil {s : List Char} : escapeDoc s = [] ↔ s = [] := by
  fun_induction escapeDoc s <;> simp

/-- Blanks separate the same pieces before and behind the escapes. -/
theorem cutWhere_escapeDoc (s : List Char) :
    cutWhere isBlank (escapeDoc s) = (cutWhere isBlank s).map escapeDoc := by
  have hfree : ∀ {s : List Char}, (∀ c ∈ s, isBlank c = false) → cutWhere isBlank s = [s] :=
    cutWhere_of_free
  induction h : s.length using Nat.strongRecOn generalizing s with
  | ind n ih =>
    by_cases hblank : ∃ c ∈ s, isBlank c = true
    · obtain ⟨c, hc, hblank⟩ := hblank
      obtain ⟨as, bs, rfl⟩ := List.append_of_mem hc
      have hquote : c ≠ '"' := by
        rintro rfl
        exact absurd hblank (by decide)
      have hslash : c ≠ '\\' := by
        rintro rfl
        exact absurd hblank (by decide)
      rw [List.length_append, List.length_cons] at h
      rw [escapeDoc_append_cons hquote hslash, cutWhere_append_sep hblank,
        cutWhere_append_sep hblank, ih as.length (by omega) as rfl, ih bs.length (by omega) bs rfl,
        List.map_append]
    · have hs : ∀ c ∈ s, isBlank c = false := by simpa using hblank
      rw [hfree hs, hfree, List.map_singleton]
      intro c hc
      rcases mem_escapeDoc hc with hc | rfl
      · exact hs c hc
      · decide

theorem wordsOf_escapeDoc (s : List Char) : wordsOf (escapeDoc s) = (wordsOf s).map escapeDoc := by
  rw [wordsOf, wordsOf, cutWhere_escapeDoc, List.filter_map]
  congr 1
  refine List.filter_congr ?_
  intro piece _
  cases piece with
  | nil => rfl
  | cons c cs => simp [List.isEmpty_eq_false_iff, escapeDoc_eq_nil]

theorem escapeDoc_glue (words : List (List Char)) :
    escapeDoc (glue [' '] words) = glue [' '] (words.map escapeDoc) := by
  fun_induction glue [' '] words with
  | case1 => rfl
  | case2 word => rfl
  | case3 word rest hrest ih =>
    obtain ⟨next, rest, rfl⟩ := List.exists_cons_of_ne_nil (fun h => hrest h)
    have hglue : ∀ w v : List Char, ∀ vs, glue [' '] (w :: v :: vs) = w ++ ' ' :: glue [' '] (v :: vs) := by
      intro w v vs
      exact List.append_assoc w [' '] _
    rw [List.append_assoc, List.singleton_append, escapeDoc_append_cons (by decide) (by decide), ih]
    exact (hglue _ _ _).symm

/-- The rewrites of a documentation string escape the remark of the text. -/
theorem docText_eq (s : List Char) : docText s = escapeDoc (remark s) := by
  have hescaped : replaceAll ['"', '"', '"'] ['\\', '"', '\\', '"', '\\', '"'] (doubled s) =
      escapeDoc s := replaceAllWithin_doubled s (Nat.le_refl _)
  show remark (replaceAll _ _ (doubled s)) = _
  rw [hescaped, remark, remark, wordsOf_escapeDoc, escapeDoc_glue]

/-! ## Reading -/

/-- A quote at the front of an escaped text has not been escaped. -/
theorem exists_of_escapeDoc_eq_quote {cs es : List Char} (h : escapeDoc cs = '"' :: es) :
    ∃ cs', cs = '"' :: cs' ∧ escapeDoc cs' = es := by
  fun_cases escapeDoc cs with
  | case1 => cases h
  | case2 cs => exact absurd (List.cons.inj h).1 (by decide)
  | case3 cs => exact absurd (List.cons.inj h).1 (by decide)
  | case4 c cs hquotes hslash =>
    rw [escapeDoc] at h
    · obtain ⟨rfl, hes⟩ := List.cons.inj h
      exact ⟨cs, rfl, hes⟩
    · exact hquotes
    · exact hslash

/-- An escaped text is read as the text, when no quote follows. -/
theorem readLiteral_escapeDoc_append {s rest : List Char} (hs : Unbroken s)
    (hrest : rest.head? ≠ some '"') :
    readLiteral .long (escapeDoc s ++ rest) = putFront (pieces s) (readLiteral .long rest) := by
  have htail : ∀ {c : Char} {cs : List Char}, Unbroken (c :: cs) → Unbroken cs :=
    fun h d hd => h d (List.mem_cons_of_mem _ hd)
  have hquote : signEscape? '"' = some '"' := rfl
  fun_induction escapeDoc s with
  | case1 => exact (putFront_nil _).symm
  | case2 cs ih =>
    simp only [List.cons_append, readLiteral_sign hquote, ih (htail (htail (htail hs))),
      putFront_putFront]
    rfl
  | case3 cs ih =>
    have hslash : signEscape? '\\' = some '\\' := rfl
    simp only [List.cons_append, readLiteral_sign hslash, ih (htail hs), putFront_putFront]
    rfl
  | case4 c cs hquotes hslash ih =>
    have hplain : isPlain .long c = true := by
      have hend := hs c List.mem_cons_self
      simp only [isLineEnd, Bool.or_eq_false_iff, beq_eq_false_iff_ne] at hend
      have hne : c ≠ '\\' := hslash
      simp [isPlain, hend, hne]
    have hopen : Quoting.closed? .long (c :: (escapeDoc cs ++ rest)) = none := by
      refine Option.eq_none_iff_forall_not_mem.mpr ?_
      intro behind hbehind
      obtain ⟨rfl, hcs⟩ := List.cons.inj (Source.dropFront?_eq_some_iff.mp hbehind)
      obtain ⟨es₁, hes₁, hcs₁⟩ := exists_of_append_eq_quote hrest hcs
      obtain ⟨es₂, rfl, -⟩ := exists_of_append_eq_quote hrest hcs₁
      obtain ⟨cs₁, rfl, hread⟩ := exists_of_escapeDoc_eq_quote hes₁
      obtain ⟨cs₂, rfl, -⟩ := exists_of_escapeDoc_eq_quote hread
      exact hquotes cs₂ rfl rfl
    rw [List.cons_append, readLiteral_next hopen (next?_plain hplain _), ih (htail hs),
      putFront_putFront]
    rfl

end FlowScript.Script
