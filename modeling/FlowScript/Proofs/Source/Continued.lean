import FlowScript.Proofs.Source.Bracketing
import FlowScript.Proofs.Source.Headers
import FlowScript.Proofs.Source.Signature
import FlowScript.Proofs.Text.Lines

/-!
# Sources that go on

What a signature makes of the text behind the function it is read from. The header is the first one
of the source, so more lines change neither the name nor the parameters. The outputs are those of the
widest return statement of the whole source, so a wider one further down takes their place.

## Main results

- `Source.header?_append_line` — the first header stays the first when lines are added
- `Source.returnNames_append_line` — the returned names of a source in two parts
- `signature_of_continued` — what added lines change in a signature
-/

namespace FlowScript

namespace Source

open Text

/-! ## The header -/

theorem Opens.append {cs name inside gap gap' : List Char} (h : Opens cs name inside gap gap')
    (more : List Char) : Opens (cs ++ more) name (inside ++ more) gap gap' :=
  { h with text := by simp [h.text] }

theorem openingHere?_append {cs name inside : List Char} (h : openingHere? cs = some (name, inside))
    (more : List Char) : openingHere? (cs ++ more) = some (name, inside ++ more) := by
  obtain ⟨gap, gap', ho⟩ := exists_opens_of_openingHere? h
  exact (ho.append more).openingHere?

/-- Where a bracket comes before the added text, no opening reaches into it. -/
theorem openingHere?_append_of_none {cs : List Char} (h : openingHere? cs = none)
    (hbracket : '(' ∈ cs) (more : List Char) : openingHere? (cs ++ more) = none := by
  rw [Option.eq_none_iff_forall_ne_some]
  rintro ⟨name, inside⟩ hsome
  obtain ⟨gap, gap', ho⟩ := exists_opens_of_openingHere? hsome
  obtain ⟨hfree, htext⟩ := ho.first_bracket
  obtain ⟨front, back, rfl, hfront⟩ := List.eq_append_cons_of_mem hbracket
  -- both readings stop at the first bracket
  obtain ⟨hsame, -⟩ := append_sep_inj hfront hfree (by simpa using htext)
  have hopens : Opens (front ++ '(' :: back) name back gap gap' :=
    { ho with text := by simp [hsame] }
  rw [hopens.openingHere?] at h
  cases h

/-- The first opening of a text starts somewhere in it. -/
theorem exists_opens_of_opening? {cs name inside : List Char}
    (h : opening? cs = some (name, inside)) :
    ∃ front rest gap gap', cs = front ++ rest ∧ Opens rest name inside gap gap' := by
  induction cs with
  | nil => cases h
  | cons c cs ih =>
    rw [opening?] at h
    cases hhere : openingHere? (c :: cs) with
    | none =>
      rw [hhere] at h
      obtain ⟨front, rest, gap, gap', rfl, ho⟩ := ih h
      exact ⟨c :: front, rest, gap, gap', rfl, ho⟩
    | some found =>
      rw [hhere] at h
      obtain rfl := Option.some.inj h
      obtain ⟨gap, gap', ho⟩ := exists_opens_of_openingHere? hhere
      exact ⟨[], c :: cs, gap, gap', rfl, ho⟩

theorem bracket_mem_of_header? {cs : List Char} {found : List Char × List Char}
    (h : header? cs = some found) : '(' ∈ cs := by
  obtain ⟨first, inside, ho, -⟩ := header?_cases h
  obtain ⟨front, rest, gap, gap', rfl, hopens⟩ := exists_opens_of_opening? ho
  simp [hopens.text]

/-- Only the line of a parameter list tells whether it completes a header. -/
theorem endsHeader_append_line (rest more : List Char) :
    endsHeader (rest ++ '\n' :: more) = endsHeader rest := by
  have hline : (rest ++ '\n' :: more).takeWhile (· != '\n') = rest.takeWhile (· != '\n') := by
    rw [List.takeWhile_append]
    split
    · next hall => simp [(List.takeWhile_prefix _).eq_of_length hall]
    · rfl
  simp only [endsHeader, hline]

/-- The first header of a text stays the first when lines are added. -/
theorem header?_append_line {cs : List Char} {found : List Char × List Char}
    (h : header? cs = some found) (more : List Char) : header? (cs ++ '\n' :: more) = some found := by
  induction cs with
  | nil => cases h
  | cons c cs ih =>
    have hbracket := bracket_mem_of_header? h
    rw [header?] at h
    rw [List.cons_append, header?, ← List.cons_append]
    cases hhere : openingHere? (c :: cs) with
    | none =>
      rw [hhere] at h
      rw [openingHere?_append_of_none hhere hbracket]
      exact ih h
    | some opened =>
      obtain ⟨name, inside⟩ := opened
      rw [openingHere?_append hhere]
      simp only [hhere] at h
      cases hclosed : closing? 0 .outside inside with
      | none => simp [hclosed] at h
      | some closed =>
        obtain ⟨params, rest⟩ := closed
        simp only [hclosed] at h
        simp only [closing?_append hclosed, endsHeader_append_line]
        split
        · next hends => rwa [if_pos hends] at h
        · next hgoes =>
          rw [if_neg hgoes] at h
          exact ih h

/-! ## The returned items -/

theorem widest_nil (items : List (List Char)) : widest [] items = items := by
  cases items <;> rfl

theorem widest_assoc (a b c : List (List Char)) :
    widest (widest a b) c = widest a (widest b c) := by
  unfold widest
  split_ifs <;> first | rfl | omega

/-- Looking for the widest of some lists can start with the widest so far. -/
theorem foldl_widest (best : List (List Char)) (lists : List (List (List Char))) :
    lists.foldl widest best = widest best (lists.foldl widest []) := by
  induction lists generalizing best with
  | nil => rfl
  | cons items rest ih =>
    rw [List.foldl_cons, List.foldl_cons, ih, widest_nil, ih items, widest_assoc]

/-- Of two parts of a source the second counts only if it returns more. -/
theorem returnNames_append_line (code more : List Char) :
    returnNames (code ++ '\n' :: more) = widest (returnNames code) (returnNames more) := by
  unfold returnNames cut
  rw [cutWhere_append_sep (by rfl), List.map_append, List.foldl_append, foldl_widest]

end Source

open Source

/-- Lines that are added to a source with a function keep the name and the parameters of its
signature. They keep the outputs exactly when they return no more items than the source does;
otherwise the outputs are the items that they return. -/
theorem signature_of_continued (code more : String) (h : (Signature.ofSource code).name ≠ "") :
    (Signature.ofSource (code ++ "\n" ++ more)).name = (Signature.ofSource code).name ∧
    (Signature.ofSource (code ++ "\n" ++ more)).inputs = (Signature.ofSource code).inputs ∧
    (Signature.ofSource (code ++ "\n" ++ more)).outputs =
      (if (Signature.ofSource code).outputs.length < (returnNames more.toList).length then
        (returnNames more.toList).map String.ofList
      else (Signature.ofSource code).outputs) ∧
    (Signature.ofSource (code ++ "\n" ++ more) = Signature.ofSource code ↔
      (returnNames more.toList).length ≤ (Signature.ofSource code).outputs.length) := by
  cases hh : header? code.toList with
  | none => simp [Signature.ofSource, hh] at h
  | some found =>
    obtain ⟨name, params⟩ := found
    have htext : (code ++ "\n" ++ more).toList = code.toList ++ '\n' :: more.toList := by simp
    have hcode : Signature.ofSource code =
        ⟨String.ofList name, (paramNames params).map String.ofList,
          (returnNames code.toList).map String.ofList⟩ := by
      simp only [Signature.ofSource, hh]
    have hmore : Signature.ofSource (code ++ "\n" ++ more) =
        ⟨String.ofList name, (paramNames params).map String.ofList,
          (widest (returnNames code.toList) (returnNames more.toList)).map String.ofList⟩ := by
      simp only [Signature.ofSource, htext, header?_append_line hh, returnNames_append_line]
    rw [hcode, hmore]
    simp only [true_and, List.length_map, Signature.mk.injEq, widest]
    split
    · next hwider =>
      refine ⟨rfl, iff_of_false ?_ (by omega)⟩
      intro hsame
      have hlength := congrArg List.length hsame
      simp only [List.length_map] at hlength
      omega
    · next hnarrow => exact ⟨rfl, iff_of_true rfl (by omega)⟩

/-- A function of two outputs, and one of a single output behind it. -/
theorem narrow_continuation_keeps_signature :
    (Signature.ofSource "def halves(x):\n    return x, x").name ≠ "" ∧
    Signature.ofSource ("def halves(x):\n    return x, x" ++ "\n" ++ "def half(a, b):\n    return a") =
      Signature.ofSource "def halves(x):\n    return x, x" := by
  have h : (Signature.ofSource "def halves(x):\n    return x, x").name ≠ "" := by decide +kernel
  exact ⟨h, (signature_of_continued _ _ h).2.2.2.mpr (by decide +kernel)⟩

/-- A function of one output gets two from the function behind it. -/
theorem wide_continuation_changes_outputs :
    (Signature.ofSource "def half(x):\n    return x").name = "half" ∧
    (Signature.ofSource "def half(x):\n    return x").outputs = ["x"] ∧
    Text.startsWith "def ".toList "def helper(a):\n    return a, a".toList = true ∧
    (Signature.ofSource
      ("def half(x):\n    return x" ++ "\n" ++ "def helper(a):\n    return a, a")).outputs =
        ["a", "a"] := by
  decide +kernel

end FlowScript
