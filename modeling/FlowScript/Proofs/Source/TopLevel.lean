import FlowScript.Proofs.Source.Bracketing
import FlowScript.Proofs.Text.Lines
import FlowScript.Source.Signature
import Mathlib.Data.List.Infix

/-!
# Top-level commas

Which commas of a text split it, whatever its brackets and quotes are: those with a text in front of
them that has closed all its literals, and outside of them all its brackets. A bracket that closes
nothing is ignored; so all brackets are closed when at no place more of them are opened behind it
than are closed.

## Main definitions

- `LiteralsClosed` — a text has no open literal, and what of it stands outside of literals
- `openBrackets` — how many brackets are open behind a text without literals
- `TopLevel` — behind a text, no literal and no bracket is open

## Main results

- `openBrackets_eq_zero_iff` — when no bracket is open
- `glue_splitFrom` — nothing is lost but the commas between the pieces
- `splitFrom_comma_append` — a comma at the top level splits
- `topLevel_of_splitFrom` — no other comma does
- `splits_at_top_level` — the split of every text
-/

namespace FlowScript.Source

open Text

/-! ## Literals and brackets -/

/-- Every literal of a text is closed; `code` is what stands outside of the literals. -/
inductive LiteralsClosed : List Char → List Char → Prop
  | nil : LiteralsClosed [] []
  | plain {c : Char} {cs code : List Char} (hc : isQuote c = false)
      (rest : LiteralsClosed cs code) : LiteralsClosed (c :: cs) (c :: code)
  | literal {quote : Char} {body cs code : List Char} (hquote : isQuote quote = true)
      (hbody : LiteralBody quote body) (rest : LiteralsClosed cs code) :
      LiteralsClosed (quote :: (body ++ quote :: cs)) code

/-- The number of brackets that are open behind a text without literals. -/
def openBrackets (code : List Char) : Nat :=
  code.foldl depthAfter 0

/-- Behind a text, no literal and no bracket is open. -/
def TopLevel (cs : List Char) : Prop :=
  ∃ code, LiteralsClosed cs code ∧ openBrackets code = 0

/-- The number of open brackets is the largest surplus of opened over closed ones that a tail of the
text has. -/
theorem openBrackets_le_iff (code : List Char) (bound : Nat) :
    openBrackets code ≤ bound ↔
      ∀ tail, tail <:+ code → tail.countP isOpener ≤ tail.countP isCloser + bound := by
  induction code using List.reverseRecOn generalizing bound with
  | nil => simp [openBrackets]
  | append_singleton code c ih =>
    -- a tail of the longer text is empty, or ends with its last character
    have htails : ∀ P : List Char → Prop, (∀ tail, tail <:+ code ++ [c] → P tail) ↔
        P [] ∧ ∀ tail, tail <:+ code → P (tail ++ [c]) := by
      intro P
      simp only [List.suffix_concat_iff]
      constructor
      · exact fun h => ⟨h [] (.inl rfl), fun tail ht => h _ (.inr ⟨tail, rfl, ht⟩)⟩
      · rintro ⟨hnil, hmore⟩ tail (rfl | ⟨front, rfl, hfront⟩)
        · exact hnil
        · exact hmore front hfront
    have hlast : openBrackets (code ++ [c]) = depthAfter (openBrackets code) c := by
      simp [openBrackets]
    rw [htails, hlast]
    simp only [List.countP_append, List.countP_singleton, List.countP_nil, depthAfter, Nat.zero_le,
      Nat.zero_add, true_and]
    cases hopens : isOpener c with
    | true =>
      simp only [(opener_cases hopens).1, if_true, Bool.false_eq_true, if_false, Nat.add_zero]
      cases bound with
      | zero =>
        refine iff_of_false (Nat.not_succ_le_zero _) fun h => ?_
        exact absurd (h [] (List.nil_suffix)) (by simp)
      | succ bound =>
        rw [Nat.add_le_add_iff_right, ih bound]
        exact forall₂_congr fun tail _ => by omega
    | false =>
      simp only [Bool.false_eq_true, if_false, Nat.add_zero]
      cases hcloses : isCloser c with
      | true =>
        simp only [if_true]
        rw [Nat.sub_le_iff_le_add, ih (bound + 1)]
        exact forall₂_congr fun tail _ => by omega
      | false =>
        simp only [Bool.false_eq_true, if_false, Nat.add_zero]
        exact ih bound

/-- No bracket is open when in no tail of the text more brackets are opened than closed. -/
theorem openBrackets_eq_zero_iff (code : List Char) :
    openBrackets code = 0 ↔
      ∀ tail, tail <:+ code → tail.countP isOpener ≤ tail.countP isCloser := by
  rw [← Nat.le_zero, openBrackets_le_iff]
  rfl

theorem topLevel_iff {cs : List Char} :
    TopLevel cs ↔ ∃ code, LiteralsClosed cs code ∧
      ∀ tail, tail <:+ code → tail.countP isOpener ≤ tail.countP isCloser := by
  simp only [TopLevel, openBrackets_eq_zero_iff]

/-! ## Pieces -/

section Pieces

variable {front : List Char} {pieces more : List (List Char)}

theorem inFront_append (front : List Char) (hne : pieces ≠ []) (more : List (List Char)) :
    inFront front (pieces ++ more) = inFront front pieces ++ more := by
  obtain ⟨piece, rest, rfl⟩ := List.exists_cons_of_ne_nil hne
  rfl

theorem glue_inFront (sep front : List Char) (hne : pieces ≠ []) :
    glue sep (inFront front pieces) = front ++ glue sep pieces := by
  obtain ⟨piece, rest, rfl⟩ := List.exists_cons_of_ne_nil hne
  cases rest with
  | nil => rfl
  | cons next rest => simp [inFront, glue]

/-- Where pieces with a text in front of the first one are divided, they are divided without it. -/
theorem division_of_inFront {first : List (List Char)} (hne : pieces ≠ []) (hfirst : first ≠ [])
    (h : inFront front pieces = first ++ more) (sep : List Char) :
    ∃ inner, inner ≠ [] ∧ pieces = inner ++ more ∧ glue sep first = front ++ glue sep inner := by
  obtain ⟨piece, rest, rfl⟩ := List.exists_cons_of_ne_nil hne
  obtain ⟨_, first, rfl⟩ := List.exists_cons_of_ne_nil hfirst
  obtain ⟨rfl, rfl⟩ := List.cons.inj h
  have hinner : piece :: first ≠ [] := List.cons_ne_nil _ _
  exact ⟨piece :: first, hinner, rfl, glue_inFront sep front hinner⟩

/-- One piece cannot be divided. -/
theorem singleton_ne_append {piece : List Char} {first : List (List Char)} (hfirst : first ≠ [])
    (hmore : more ≠ []) : [piece] ≠ first ++ more := by
  intro h
  rcases List.append_eq_singleton_iff.mp h.symm with ⟨rfl, -⟩ | ⟨-, rfl⟩
  · exact hfirst rfl
  · exact hmore rfl

end Pieces

/-! ## The split of a text -/

variable {depth : Nat} {literal : Literal}

/-- The pieces of a text, glued together with commas, are the text. -/
theorem glue_splitFrom (depth : Nat) (literal : Literal) (cs : List Char) :
    glue [','] (splitFrom depth literal cs) = cs := by
  induction cs generalizing depth literal with
  | nil => rfl
  | cons c cs ih =>
    by_cases hcomma : literal = .outside ∧ depth = 0 ∧ c = ','
    · obtain ⟨rfl, rfl, rfl⟩ := hcomma
      obtain ⟨piece, rest, hpieces⟩ := List.exists_cons_of_ne_nil (splitFrom_ne_nil 0 .outside cs)
      have hglue := ih 0 .outside
      rw [hpieces] at hglue
      rw [splitFrom_comma, hpieces, glue_cons_cons, hglue]
      rfl
    · rw [splitFrom_cons hcomma, glue_inFront _ _ (splitFrom_ne_nil _ _ _), ih]
      rfl

/-- A piece is not split again: the first one not by a reading that starts where the split did, and
the others not by one that starts at the top level. -/
theorem splitFrom_pieces {cs first : List Char} {rest : List (List Char)}
    (h : splitFrom depth literal cs = first :: rest) :
    splitFrom depth literal first = [first] ∧ ∀ piece ∈ rest, splitTopLevel piece = [piece] := by
  induction cs generalizing depth literal first rest with
  | nil =>
    obtain ⟨rfl, rfl⟩ := List.cons.inj h
    exact ⟨rfl, fun _ hp => absurd hp List.not_mem_nil⟩
  | cons c cs ih =>
    by_cases hcomma : literal = .outside ∧ depth = 0 ∧ c = ','
    · obtain ⟨rfl, rfl, rfl⟩ := hcomma
      rw [splitFrom_comma] at h
      obtain ⟨rfl, rfl⟩ := List.cons.inj h
      refine ⟨rfl, ?_⟩
      obtain ⟨piece, others, hpieces⟩ :=
        List.exists_cons_of_ne_nil (splitFrom_ne_nil 0 .outside cs)
      rw [hpieces]
      exact List.forall_mem_cons.mpr (ih hpieces)
    · rw [splitFrom_cons hcomma] at h
      obtain ⟨piece, others, hpieces⟩ := List.exists_cons_of_ne_nil
        (splitFrom_ne_nil (if literal = .outside then depthAfter depth c else depth)
          (literal.next c) cs)
      rw [hpieces] at h
      obtain ⟨rfl, rfl⟩ := List.cons.inj h
      obtain ⟨hpiece, hothers⟩ := ih hpieces
      refine ⟨?_, hothers⟩
      show splitFrom depth literal (c :: piece) = [c :: piece]
      rw [splitFrom_cons hcomma, hpiece]
      rfl

/-- A character outside of literals that does not split. -/
theorem splitFrom_plain {c : Char} (hc : isQuote c = false) (hcomma : ¬ (depth = 0 ∧ c = ','))
    (cs : List Char) :
    splitFrom depth .outside (c :: cs) =
      inFront [c] (splitFrom (depthAfter depth c) .outside cs) := by
  rw [splitFrom_cons (fun h => hcomma h.2), if_pos rfl, Literal.next_outside_of_not_quote hc]

/-- The split passes over a closed literal. -/
theorem splitFrom_literal {quote : Char} {body : List Char} (hquote : isQuote quote = true)
    (hbody : LiteralBody quote body) (depth : Nat) (cs : List Char) :
    splitFrom depth .outside (quote :: (body ++ quote :: cs)) =
      inFront (quote :: (body ++ [quote])) (splitFrom depth .outside cs) := by
  rw [splitFrom_passesOver.quote hquote,
    splitFrom_passesOver.literalBody (quote_cases hquote).1 hbody, inFront_inFront,
    List.singleton_append]

theorem depthAfter_comma (depth : Nat) : depthAfter depth ',' = depth :=
  rfl

/-- A comma behind a text that has closed its literals and brackets divides the pieces. -/
theorem splitFrom_comma_append {a code : List Char} (ha : LiteralsClosed a code)
    (hdepth : code.foldl depthAfter depth = 0) (b : List Char) :
    splitFrom depth .outside (a ++ ',' :: b) = splitFrom depth .outside a ++ splitTopLevel b := by
  induction ha generalizing depth with
  | nil =>
    obtain rfl : depth = 0 := hdepth
    exact splitFrom_comma b
  | @plain c cs code hc _ ih =>
    have hrest : code.foldl depthAfter (depthAfter depth c) = 0 := hdepth
    have hmore := ih hrest
    rw [List.cons_append]
    by_cases hcomma : depth = 0 ∧ c = ','
    · obtain ⟨rfl, rfl⟩ := hcomma
      rw [depthAfter_comma] at hmore
      rw [splitFrom_comma, splitFrom_comma, hmore, List.cons_append]
    · rw [splitFrom_plain hc hcomma, splitFrom_plain hc hcomma, hmore,
        inFront_append _ (splitFrom_ne_nil _ _ _)]
  | @literal quote body cs code hquote hbody _ ih =>
    rw [List.cons_append, List.append_assoc, List.cons_append, splitFrom_literal hquote hbody,
      splitFrom_literal hquote hbody, ih hdepth, inFront_append _ (splitFrom_ne_nil _ _ _)]

/-- The split inside of a literal passes over one character. -/
theorem splitFrom_inner (hinside : literal ≠ .outside) (depth : Nat) (c : Char) (cs : List Char) :
    splitFrom depth literal (c :: cs) = inFront [c] (splitFrom depth (literal.next c) cs) :=
  splitFrom_passesOver.inner hinside depth c cs

/-- A literal is closed further on, or what follows its quote is one piece. The same holds behind a
backslash, from the character after the next one on. -/
theorem literal_closed_or_open (quote : Char) (cs : List Char) :
    ((∃ body rest, cs = body ++ quote :: rest ∧ LiteralBody quote body) ∨
      ∀ depth, splitFrom depth (.inside quote) cs = [cs]) ∧
    ((∃ c body rest, cs = c :: (body ++ quote :: rest) ∧ LiteralBody quote body) ∨
      ∀ depth, splitFrom depth (.escaped quote) cs = [cs]) := by
  induction cs with
  | nil => exact ⟨.inr fun _ => rfl, .inr fun _ => rfl⟩
  | cons c cs ih =>
    obtain ⟨ihinside, ihescaped⟩ := ih
    constructor
    · by_cases hclose : c = quote
      · exact .inl ⟨[], cs, by rw [hclose]; rfl, .nil⟩
      · by_cases hslash : c = '\\'
        · subst hslash
          rcases ihescaped with ⟨d, body, rest, rfl, hbody⟩ | hopen
          · exact .inl ⟨'\\' :: d :: body, rest, rfl, .escape hbody⟩
          · refine .inr fun depth => ?_
            have hnext : Literal.next (.inside quote) '\\' = .escaped quote := rfl
            rw [splitFrom_inner (by simp), hnext, hopen]
            rfl
        · rcases ihinside with ⟨body, rest, rfl, hbody⟩ | hopen
          · exact .inl ⟨c :: body, rest, rfl, .plain hslash hclose hbody⟩
          · refine .inr fun depth => ?_
            rw [splitFrom_inner (by simp), Literal.next_inside_of_ne hslash hclose, hopen]
            rfl
    · rcases ihinside with ⟨body, rest, rfl, hbody⟩ | hopen
      · exact .inl ⟨c, body, rest, rfl, hbody⟩
      · refine .inr fun depth => ?_
        have hnext : Literal.next (.escaped quote) c = .inside quote := rfl
        rw [splitFrom_inner (by simp), hnext, hopen]
        rfl

/-- Where the pieces of a text are divided, the text before has closed its literals and brackets. -/
theorem topLevel_of_splitFrom {cs : List Char} {first more : List (List Char)}
    (h : splitFrom depth .outside cs = first ++ more) (hfirst : first ≠ []) (hmore : more ≠ []) :
    ∃ code, LiteralsClosed (glue [','] first) code ∧ code.foldl depthAfter depth = 0 := by
  -- a literal is passed over at once, so the induction is on the length of the text
  induction hlength : cs.length using Nat.strong_induction_on generalizing depth cs first with
  | _ length ih =>
    subst hlength
    cases cs with
    | nil => exact absurd h (singleton_ne_append hfirst hmore)
    | cons c cs =>
      cases hquote : isQuote c with
      | true =>
        rcases (literal_closed_or_open c cs).1 with ⟨body, rest, rfl, hbody⟩ | hopen
        · rw [splitFrom_literal hquote hbody] at h
          obtain ⟨inner, hinner, hpieces, hglue⟩ :=
            division_of_inFront (splitFrom_ne_nil _ _ _) hfirst h [',']
          obtain ⟨code, hcode, hdepth⟩ := ih rest.length (by simp; omega) hpieces hinner rfl
          refine ⟨code, ?_, hdepth⟩
          rw [hglue]
          simpa using LiteralsClosed.literal hquote hbody hcode
        · rw [splitFrom_passesOver.quote hquote, hopen] at h
          exact absurd h (singleton_ne_append hfirst hmore)
      | false =>
        by_cases hcomma : depth = 0 ∧ c = ','
        · obtain ⟨rfl, rfl⟩ := hcomma
          rw [splitFrom_comma] at h
          obtain ⟨_, first, rfl⟩ := List.exists_cons_of_ne_nil hfirst
          obtain ⟨rfl, hrest⟩ := List.cons.inj h
          by_cases hnil : first = []
          · subst hnil
            exact ⟨[], .nil, rfl⟩
          · obtain ⟨code, hcode, hdepth⟩ := ih cs.length (by simp) hrest hnil rfl
            refine ⟨',' :: code, ?_, hdepth⟩
            obtain ⟨piece, others, rfl⟩ := List.exists_cons_of_ne_nil hnil
            exact .plain hquote hcode
        · rw [splitFrom_plain hquote hcomma] at h
          obtain ⟨inner, hinner, hpieces, hglue⟩ :=
            division_of_inFront (splitFrom_ne_nil _ _ _) hfirst h [',']
          obtain ⟨code, hcode, hdepth⟩ := ih cs.length (by simp) hpieces hinner rfl
          refine ⟨c :: code, ?_, hdepth⟩
          rw [hglue]
          exact .plain hquote hcode

/-! ## Texts -/

/-- Texts are joined by commas as their characters are glued together. -/
theorem intercalate_comma (pieces : List (List Char)) :
    String.intercalate "," (pieces.map String.ofList) = String.ofList (glue [','] pieces) := by
  induction pieces with
  | nil => rfl
  | cons piece rest ih =>
    cases rest with
    | nil => simp [glue]
    | cons next rest =>
      rw [List.map_cons, String.intercalate_cons_of_ne_nil (by simp), ih, glue_cons_cons,
        String.ofList_append, String.ofList_append]

end FlowScript.Source

namespace FlowScript

open Source (TopLevel)

/-- Joined by commas, the pieces of a text are the text. -/
theorem intercalate_splitTopLevel (s : String) : String.intercalate "," (splitTopLevel s) = s := by
  rw [splitTopLevel, Source.intercalate_comma, Source.splitTopLevel, Source.glue_splitFrom,
    String.ofList_toList]

/-- Behind a text that ends at the top level, a comma and more text add the pieces of that text. -/
theorem splitTopLevel_comma_append {a : String} (ha : TopLevel a.toList) (b : String) :
    splitTopLevel (a ++ "," ++ b) = splitTopLevel a ++ splitTopLevel b := by
  obtain ⟨code, hcode, hdepth⟩ := ha
  have hchars : (a ++ "," ++ b).toList = a.toList ++ ',' :: b.toList := by simp
  simp only [splitTopLevel, hchars]
  rw [Source.splitTopLevel, Source.splitFrom_comma_append hcode hdepth, List.map_append]
  rfl

/-- What stands before a division of the pieces ends at the top level. -/
theorem topLevel_of_splitTopLevel {s : String} {first more : List String} (hfirst : first ≠ [])
    (hmore : more ≠ []) (h : splitTopLevel s = first ++ more) :
    TopLevel (String.intercalate "," first).toList := by
  obtain ⟨front, back, hpieces, rfl, rfl⟩ := List.map_eq_append_iff.mp h
  rw [Source.intercalate_comma, String.toList_ofList]
  refine Source.topLevel_of_splitFrom hpieces ?_ ?_
  · exact fun hnil => hfirst (by rw [hnil, List.map_nil])
  · exact fun hnil => hmore (by rw [hnil, List.map_nil])

/-- No piece is split again. -/
theorem splitTopLevel_piece {s piece : String} (h : piece ∈ splitTopLevel s) :
    splitTopLevel piece = [piece] := by
  obtain ⟨chars, hchars, rfl⟩ := List.mem_map.mp h
  obtain ⟨first, rest, hpieces⟩ :=
    List.exists_cons_of_ne_nil (Source.splitFrom_ne_nil 0 .outside s.toList)
  have hsplit : Source.splitTopLevel chars = [chars] := by
    rw [Source.splitTopLevel, hpieces] at hchars
    obtain ⟨hfirst, hrest⟩ := Source.splitFrom_pieces hpieces
    rcases List.mem_cons.mp hchars with rfl | hmem
    · exact hfirst
    · exact hrest chars hmem
  rw [splitTopLevel, String.toList_ofList, hsplit, List.map_singleton]

/-- A text is split at its top-level commas and nowhere else. Joined by commas, the pieces are the
text; a comma divides them exactly when the text before it has closed its literals and, outside of
literals, its brackets; no piece is split again; and behind a text that ends at the top level, a
comma and more text add the pieces of that text. Closing brackets that close nothing do not count:
brackets are closed when, from no place on, more of them are opened than closed. -/
theorem splits_at_top_level (s : String) :
    String.intercalate "," (splitTopLevel s) = s ∧
    (∀ before after, s = before ++ "," ++ after →
      ((∃ first more, first ≠ [] ∧ more ≠ [] ∧ splitTopLevel s = first ++ more ∧
        String.intercalate "," first = before ∧ String.intercalate "," more = after) ↔
      TopLevel before.toList)) ∧
    (∀ piece ∈ splitTopLevel s, splitTopLevel piece = [piece]) ∧
    (∀ a b, TopLevel a.toList →
      splitTopLevel (a ++ "," ++ b) = splitTopLevel a ++ splitTopLevel b) ∧
    ∀ cs, TopLevel cs ↔ ∃ code, Source.LiteralsClosed cs code ∧
      ∀ tail, tail <:+ code → tail.countP Source.isOpener ≤ tail.countP Source.isCloser := by
  refine ⟨intercalate_splitTopLevel s, ?_, fun _ => splitTopLevel_piece,
    fun a b ha => splitTopLevel_comma_append ha b, fun _ => Source.topLevel_iff⟩
  rintro before after rfl
  constructor
  · rintro ⟨first, more, hfirst, hmore, hpieces, rfl, rfl⟩
    exact topLevel_of_splitTopLevel hfirst hmore hpieces
  · intro hbefore
    have hne : ∀ t, splitTopLevel t ≠ [] := by
      intro t hnil
      exact Source.splitFrom_ne_nil _ _ _ (List.map_eq_nil_iff.mp hnil)
    exact ⟨_, _, hne before, hne after, splitTopLevel_comma_append hbefore after,
      intercalate_splitTopLevel before, intercalate_splitTopLevel after⟩

example : splitTopLevel "f(a, ')\\',', b)], \x7bc" = ["f(a, ')\\',', b)]", " \x7bc"] := by
  decide +kernel

end FlowScript
