import FlowScript.Json.Syntax

/-!
# Bodies of string literals

A text comes back from the literal that is written for it, and a literal stands for the same text
after its markup characters and separators have been escaped.

## Main definitions

- `IsBody` — what may stand between the quotes of a literal

## Main results

- `unescape_escape` — writing a text and reading it gives the text
- `unescape_respell` — respelling a body does not change its text
- `respell_respell` — a body is respelled once and for all
-/

namespace FlowScript.Json

open Text

/-- The letters of escapes that are two characters long. -/
def shortEscapes : List Char :=
  "bfnrt\\/\"".toList

theorem ne_u_of_mem_shortEscapes {c : Char} (h : c ∈ shortEscapes) : c ≠ 'u' := by
  have hshort : shortEscapes.all (· != 'u') = true := by decide
  simpa using List.all_eq_true.mp hshort c h

/-- What may stand between the quotes of a string literal. -/
inductive IsBody : List Char → Prop
  | nil : IsBody []
  | char {c : Char} {cs : List Char} (hquote : c ≠ '"') (hslash : c ≠ '\\')
      (hcontrol : ¬ c.toNat < 0x20) (h : IsBody cs) : IsBody (c :: cs)
  | short {c : Char} {cs : List Char} (hc : c ∈ shortEscapes) (h : IsBody cs) :
      IsBody ('\\' :: c :: cs)
  | unit {a b c d : Char} {n : Nat} {cs : List Char} (hn : hex4? a b c d = some n)
      (h : IsBody cs) : IsBody ('\\' :: 'u' :: a :: b :: c :: d :: cs)

theorem IsBody.append {as bs : List Char} (ha : IsBody as) (hb : IsBody bs) : IsBody (as ++ bs) := by
  induction ha with
  | nil => exact hb
  | char hquote hslash hcontrol _ ih => exact .char hquote hslash hcontrol ih
  | short hc _ ih => exact .short hc ih
  | unit hn _ ih => exact .unit hn ih

/-! ## Digits -/

theorem hexValue?_hexDigit : ∀ k < 16, hexValue? (hexDigit k) = some k := by
  decide

theorem exists_hex4?_eq {a b c d : Char} (ha : (hexValue? a).isSome = true)
    (hb : (hexValue? b).isSome = true) (hc : (hexValue? c).isSome = true)
    (hd : (hexValue? d).isSome = true) : ∃ n, hex4? a b c d = some n := by
  obtain ⟨i, hi⟩ := Option.isSome_iff_exists.mp ha
  obtain ⟨j, hj⟩ := Option.isSome_iff_exists.mp hb
  obtain ⟨k, hk⟩ := Option.isSome_iff_exists.mp hc
  obtain ⟨l, hl⟩ := Option.isSome_iff_exists.mp hd
  exact ⟨((i * 16 + j) * 16 + k) * 16 + l, by simp [hex4?, hi, hj, hk, hl]⟩

theorem hex4?_eq_some {a b c d : Char} {n : Nat} (h : hex4? a b c d = some n) :
    (hexValue? a).isSome = true ∧ (hexValue? b).isSome = true ∧ (hexValue? c).isSome = true ∧
      (hexValue? d).isSome = true := by
  simp only [hex4?, Option.bind_eq_bind, Option.bind_eq_some_iff] at h
  obtain ⟨a', ha, b', hb, c', hc, d', hd, -⟩ := h
  simp [ha, hb, hc, hd]

/-- Four digits are enough for the numbers of the basic plane. -/
theorem exists_hex_four {n : Nat} (hn : n < 0x10000) :
    ∃ a b c d, hex 4 n = [a, b, c, d] ∧ hex4? a b c d = some n := by
  refine ⟨hexDigit (n / 16 / 16 / 16 % 16), hexDigit (n / 16 / 16 % 16), hexDigit (n / 16 % 16),
    hexDigit (n % 16), rfl, ?_⟩
  have hdigit : ∀ m, hexValue? (hexDigit (m % 16)) = some (m % 16) := fun m =>
    hexValue?_hexDigit _ (Nat.mod_lt m (by decide))
  simp only [hex4?, hdigit, Option.bind_eq_bind, Option.bind_some, Option.pure_def, Option.some.injEq]
  omega

theorem not_special_of_hexValue? {c : Char} (h : (hexValue? c).isSome = true) :
    isMarkup c = false ∧ isSeparator c = false := by
  have hle : c.toNat < 0x80 ∧ c ≠ '<' ∧ c ≠ '>' ∧ c ≠ '&' := by
    refine ⟨?_, ?_, ?_, ?_⟩
    · unfold hexValue? at h
      simp only [Bool.and_eq_true, decide_eq_true_eq] at h
      have hbound : ∀ d : Char, c ≤ d → c.toNat ≤ d.toNat := fun d hd => hd
      split at h
      · next hc => exact Nat.lt_of_le_of_lt (hbound _ hc.2) (by decide)
      · split at h
        · next hc => exact Nat.lt_of_le_of_lt (hbound _ hc.2) (by decide)
        · split at h
          · next hc => exact Nat.lt_of_le_of_lt (hbound _ hc.2) (by decide)
          · cases h
    all_goals
      rintro rfl
      revert h
      decide
  have hseparator : c.toNat ≠ 0x2028 ∧ c.toNat ≠ 0x2029 := by omega
  simp [isMarkup, isSeparator, hle, hseparator]

/-! ## Elements -/

theorem elements_char {c : Char} (hc : c ≠ '\\') (cs : List Char) :
    elements (c :: cs) = .char c :: elements cs := by
  cases cs with
  | nil => rfl
  | cons e rest =>
    conv => lhs; unfold elements
    simp [hc]

theorem elements_short {c : Char} (hc : c ≠ 'u') (cs : List Char) :
    elements ('\\' :: c :: cs) = .char (shortEscape c) :: elements cs := by
  conv => lhs; unfold elements
  simp [hc]

theorem elements_unit {a b c d : Char} {n : Nat} (hn : hex4? a b c d = some n) (cs : List Char) :
    elements ('\\' :: 'u' :: a :: b :: c :: d :: cs) = .unit n :: elements cs := by
  conv => lhs; unfold elements
  simp [hn]

theorem elements_unicodeEscape {n : Nat} (hn : n < 0x10000) (cs : List Char) :
    elements (unicodeEscape n ++ cs) = .unit n :: elements cs := by
  obtain ⟨a, b, c, d, hhex, hvalue⟩ := exists_hex_four hn
  rw [unicodeEscape, hhex]
  exact elements_unit hvalue cs

theorem isBody_unicodeEscape {n : Nat} (hn : n < 0x10000) {cs : List Char} (h : IsBody cs) :
    IsBody (unicodeEscape n ++ cs) := by
  obtain ⟨a, b, c, d, hhex, hvalue⟩ := exists_hex_four hn
  rw [unicodeEscape, hhex]
  exact .unit hvalue h

theorem not_surrogate (c : Char) :
    isHighSurrogate c.toNat = false ∧ isLowSurrogate c.toNat = false := by
  have hvalid : c.toNat < 0xD800 ∨ 0xDFFF < c.toNat ∧ c.toNat < 0x110000 := c.valid
  simp only [isHighSurrogate, isLowSurrogate, Bool.and_eq_false_iff, decide_eq_false_iff_not]
  omega

/-- Some characters are given by their numbers instead. -/
inductive Renumbered : List Element → List Element → Prop
  | nil : Renumbered [] []
  | keep (e : Element) {es es' : List Element} (h : Renumbered es es') :
      Renumbered (e :: es) (e :: es')
  | unit (c : Char) {es es' : List Element} (h : Renumbered es es') :
      Renumbered (.char c :: es) (.unit c.toNat :: es')

theorem unitChar_toNat (c : Char) : unitChar c.toNat = c := by
  rw [unitChar, (not_surrogate c).1, (not_surrogate c).2]
  exact Char.ofNat_toNat c

/-- A character that is given by its number is never half of a pair. -/
theorem joinUnits_toNat (c : Char) (es : List Element) :
    joinUnits (.unit c.toNat :: es) = c :: joinUnits es := by
  cases es with
  | nil => simp [joinUnits, unitChar_toNat]
  | cons e es =>
    cases e with
    | char d => simp [joinUnits, unitChar_toNat]
    | unit m => simp [joinUnits, unitChar_toNat, (not_surrogate c).1]

theorem Renumbered.joinUnits_eq {es es' : List Element} (h : Renumbered es es') :
    joinUnits es = joinUnits es' := by
  induction es using joinUnits.induct generalizing es' with
  | case1 =>
    cases h
    rfl
  | case2 c rest ih =>
    cases h with
    | keep _ h => rw [joinUnits, joinUnits, ih h]
    | unit _ h => rw [joinUnits, joinUnits_toNat, ih h]
  | case3 n =>
    cases h with
    | keep _ h =>
      cases h
      rfl
  | case4 n c rest ih =>
    cases h with
    | keep _ h =>
      cases h with
      | keep _ h => rw [joinUnits, joinUnits, ih h]
      | unit _ h =>
        have hnot : (isHighSurrogate n && isLowSurrogate c.toNat) = false := by
          simp [(not_surrogate c).2]
        rw [joinUnits, joinUnits, if_neg (by simp [hnot]), joinUnits_toNat, ih h]
  | case5 n m rest hpair ih =>
    cases h with
    | keep _ h =>
      cases h with
      | keep _ h => rw [joinUnits, joinUnits, if_pos hpair, if_pos hpair, ih h]
  | case6 n m rest hpair ih =>
    cases h with
    | keep _ h =>
      cases h with
      | keep _ h => rw [joinUnits, joinUnits, if_neg hpair, if_neg hpair, ih (.keep _ h)]

/-! ## Writing a text -/

/-- A character is written as it is, by a letter behind a backslash, or by its number. -/
theorem escapeChar_cases (markup : Markup) (c : Char) :
    (escapeChar markup c = [c] ∧ c ≠ '"' ∧ c ≠ '\\' ∧ ¬ c.toNat < 0x20) ∨
    (∃ s ∈ shortEscapes, escapeChar markup c = ['\\', s] ∧ s ≠ 'u' ∧ shortEscape s = c) ∨
    (escapeChar markup c = unicodeEscape c.toNat ∧ c.toNat < 0x10000) := by
  unfold escapeChar
  split
  · next h =>
    rcases (by simpa using h : c = '"' ∨ c = '\\') with rfl | rfl
    · exact Or.inr (Or.inl ⟨'"', by decide, rfl, by decide, rfl⟩)
    · exact Or.inr (Or.inl ⟨'\\', by decide, rfl, by decide, rfl⟩)
  · next hplain =>
    split
    · next h => exact Or.inr (Or.inl ⟨'n', by decide, rfl, by decide, (eq_of_beq h).symm⟩)
    split
    · next h => exact Or.inr (Or.inl ⟨'r', by decide, rfl, by decide, (eq_of_beq h).symm⟩)
    split
    · next h => exact Or.inr (Or.inl ⟨'t', by decide, rfl, by decide, (eq_of_beq h).symm⟩)
    split
    · next h => exact Or.inr (Or.inl ⟨'b', by decide, rfl, by decide, (eq_of_beq h).symm⟩)
    split
    · next h => exact Or.inr (Or.inl ⟨'f', by decide, rfl, by decide, (eq_of_beq h).symm⟩)
    split
    · next h =>
      refine Or.inr (Or.inr ⟨rfl, ?_⟩)
      simp only [isSeparator, isMarkup, Bool.or_eq_true, Bool.and_eq_true, decide_eq_true_eq,
        beq_iff_eq] at h
      rcases h with (h | h | h) | ⟨-, (rfl | rfl) | rfl⟩
      · omega
      · omega
      · omega
      all_goals decide
    · next h =>
      simp only [Bool.or_eq_true, beq_iff_eq, decide_eq_true_eq, not_or] at hplain h
      exact Or.inl ⟨rfl, hplain.1, hplain.2, h.1.1⟩

theorem isBody_escape (markup : Markup) (cs : List Char) : IsBody (escape markup cs) := by
  induction cs with
  | nil => exact .nil
  | cons c cs ih =>
    rw [escape, List.flatMap_cons]
    rcases escapeChar_cases markup c with ⟨heq, hq, hs, hc⟩ | ⟨s, hs, heq, -, -⟩ | ⟨heq, hc⟩
    · rw [heq]
      exact .char hq hs hc ih
    · rw [heq]
      exact .short hs ih
    · rw [heq]
      exact isBody_unicodeEscape hc ih

theorem renumbered_escape (markup : Markup) (cs : List Char) :
    Renumbered (cs.map Element.char) (elements (escape markup cs)) := by
  induction cs with
  | nil => exact .nil
  | cons c cs ih =>
    rw [escape, List.flatMap_cons, List.map_cons]
    rcases escapeChar_cases markup c with ⟨heq, -, hs, -⟩ | ⟨s, -, heq, hu, rfl⟩ | ⟨heq, hc⟩
    · rw [heq, List.singleton_append, elements_char hs]
      exact .keep _ ih
    · rw [heq]
      exact elements_short hu _ ▸ .keep _ ih
    · rw [heq, elements_unicodeEscape hc]
      exact .unit c ih

theorem unescape_escape (markup : Markup) (cs : List Char) : unescape (escape markup cs) = cs := by
  have hjoin : ∀ cs : List Char, joinUnits (cs.map Element.char) = cs := by
    intro cs
    induction cs with
    | nil => rfl
    | cons c cs ih => rw [List.map_cons, joinUnits, ih]
  rw [unescape, ← (renumbered_escape markup cs).joinUnits_eq, hjoin]

/-! ## Respelling a body -/

theorem respell_append (markup : Markup) (as bs : List Char) :
    respell markup (as ++ bs) = respell markup as ++ respell markup bs := by
  cases markup with
  | plain => rfl
  | escaped => exact List.flatMap_append

theorem respell_of_not_special {cs : List Char}
    (h : ∀ c ∈ cs, isMarkup c = false ∧ isSeparator c = false) (markup : Markup) :
    respell markup cs = cs := by
  cases markup with
  | plain => rfl
  | escaped =>
    induction cs with
    | nil => rfl
    | cons c cs ih =>
      have hc := h c List.mem_cons_self
      have ih : List.flatMap _ cs = cs := ih (fun d hd => h d (List.mem_cons_of_mem c hd))
      rw [respell, List.flatMap_cons, ih]
      simp [hc]

theorem not_special_unicodeEscape {n : Nat} (hn : n < 0x10000) :
    ∀ c ∈ unicodeEscape n, isMarkup c = false ∧ isSeparator c = false := by
  obtain ⟨a, b, c, d, hhex, hvalue⟩ := exists_hex_four hn
  obtain ⟨ha, hb, hc, hd⟩ := hex4?_eq_some hvalue
  intro e he
  simp only [unicodeEscape, hhex, List.mem_cons, List.not_mem_nil, or_false] at he
  rcases he with rfl | rfl | rfl | rfl | rfl | rfl
  · decide
  · decide
  · exact not_special_of_hexValue? ha
  · exact not_special_of_hexValue? hb
  · exact not_special_of_hexValue? hc
  · exact not_special_of_hexValue? hd

theorem lt_of_special {c : Char} (h : (isMarkup c || isSeparator c) = true) : c.toNat < 0x10000 := by
  simp only [isMarkup, isSeparator, Bool.or_eq_true, beq_iff_eq] at h
  rcases h with ((rfl | rfl) | rfl) | h | h
  · decide
  · decide
  · decide
  · omega
  · omega

/-- One character of a body is kept or given by its number. -/
theorem respell_cons_cases (markup : Markup) (c : Char) (cs : List Char) :
    respell markup (c :: cs) = c :: respell markup cs ∨
      (respell markup (c :: cs) = unicodeEscape c.toNat ++ respell markup cs ∧
        c.toNat < 0x10000) := by
  cases markup with
  | plain => exact Or.inl rfl
  | escaped =>
    by_cases h : (isMarkup c || isSeparator c) = true
    · refine Or.inr ⟨?_, lt_of_special h⟩
      rw [respell, List.flatMap_cons, if_pos h]
      rfl
    · refine Or.inl ?_
      rw [respell, List.flatMap_cons, if_neg h]
      rfl

/-- The two characters of a short escape stay as they are. -/
theorem respell_short (markup : Markup) {c : Char} (hc : c ∈ shortEscapes) (cs : List Char) :
    respell markup ('\\' :: c :: cs) = '\\' :: c :: respell markup cs := by
  have hspecial : ∀ d ∈ ['\\', c], isMarkup d = false ∧ isSeparator d = false := by
    intro d hd
    rcases (by simpa using hd : d = '\\' ∨ d = c) with rfl | rfl
    · decide
    · have hshort : shortEscapes.all (fun d => !isMarkup d && !isSeparator d) = true := by decide
      simpa using List.all_eq_true.mp hshort d hc
  exact (respell_append markup ['\\', c] cs).trans
    (congrArg (· ++ respell markup cs) (respell_of_not_special hspecial markup))

theorem respell_unit (markup : Markup) {a b c d : Char} {n : Nat} (hn : hex4? a b c d = some n)
    (cs : List Char) :
    respell markup ('\\' :: 'u' :: a :: b :: c :: d :: cs) =
      '\\' :: 'u' :: a :: b :: c :: d :: respell markup cs := by
  obtain ⟨ha, hb, hc, hd⟩ := hex4?_eq_some hn
  have hspecial : ∀ e ∈ ['\\', 'u', a, b, c, d], isMarkup e = false ∧ isSeparator e = false := by
    intro e he
    simp only [List.mem_cons, List.not_mem_nil, or_false] at he
    rcases he with rfl | rfl | rfl | rfl | rfl | rfl
    · decide
    · decide
    · exact not_special_of_hexValue? ha
    · exact not_special_of_hexValue? hb
    · exact not_special_of_hexValue? hc
    · exact not_special_of_hexValue? hd
  exact (respell_append markup ['\\', 'u', a, b, c, d] cs).trans
    (congrArg (· ++ respell markup cs) (respell_of_not_special hspecial markup))

theorem IsBody.respell {body : List Char} (h : IsBody body) (markup : Markup) :
    IsBody (respell markup body) := by
  induction h with
  | nil =>
    cases markup
    · exact .nil
    · exact .nil
  | @char c cs hquote hslash hcontrol _ ih =>
    rcases respell_cons_cases markup c cs with heq | ⟨heq, hc⟩
    · rw [heq]
      exact .char hquote hslash hcontrol ih
    · rw [heq]
      exact isBody_unicodeEscape hc ih
  | short hc _ ih =>
    rw [respell_short markup hc]
    exact .short hc ih
  | unit hn _ ih =>
    rw [respell_unit markup hn]
    exact .unit hn ih

theorem renumbered_respell {body : List Char} (h : IsBody body) (markup : Markup) :
    Renumbered (elements body) (elements (respell markup body)) := by
  induction h with
  | nil =>
    cases markup
    · exact .nil
    · exact .nil
  | @char c cs _ hslash _ _ ih =>
    rw [elements_char hslash]
    rcases respell_cons_cases markup c cs with heq | ⟨heq, hc⟩
    · rw [heq, elements_char hslash]
      exact .keep _ ih
    · rw [heq, elements_unicodeEscape hc]
      exact .unit c ih
  | @short c cs hc _ ih =>
    have hu := ne_u_of_mem_shortEscapes hc
    rw [respell_short markup hc, elements_short hu, elements_short hu]
    exact .keep _ ih
  | unit hn _ ih =>
    rw [respell_unit markup hn, elements_unit hn, elements_unit hn]
    exact .keep _ ih

theorem unescape_respell {body : List Char} (h : IsBody body) (markup : Markup) :
    unescape (respell markup body) = unescape body :=
  (renumbered_respell h markup).joinUnits_eq.symm

theorem respell_respell (markup : Markup) (body : List Char) :
    respell markup (respell markup body) = respell markup body := by
  cases markup with
  | plain => rfl
  | escaped =>
    induction body with
    | nil => rfl
    | cons c cs ih =>
      have hcons : respell .escaped (c :: cs) =
          (if isMarkup c || isSeparator c then unicodeEscape c.toNat else [c])
            ++ respell .escaped cs := List.flatMap_cons
      have hpiece : ∀ d ∈ (if isMarkup c || isSeparator c then unicodeEscape c.toNat else [c]),
          isMarkup d = false ∧ isSeparator d = false := by
        split
        · next h => exact not_special_unicodeEscape (lt_of_special h)
        · next h =>
          intro d hd
          rw [List.mem_singleton.mp hd]
          simpa using h
      rw [hcons, respell_append, respell_of_not_special hpiece, ih]

end FlowScript.Json
