import FlowScript.Json.Value
import FlowScript.Flow.Document

/-!
# Spellings of numbers

Integers and double precision numbers are written as numbers of the syntax: no zero stands before
other digits, a point is followed by digits and so is an exponent mark.

## Main definitions

- `IsNumber` — a text that the reader takes for one number

## Main results

- `isNumber_signedDecimal`, `isNumber_render` — what is written for a number is one
- `wholeNumber?_signedDecimal` — an integer of 64 bits is read back
-/

namespace FlowScript.Json

open Text

namespace NumberPhase

/-- The phase after the first character of a number. -/
def start? (c : Char) : Option NumberPhase :=
  if c == '-' then some sign
  else if c == '0' then some zero
  else if isDigit c then some whole
  else none

/-- The phase after more characters. -/
def run (phase : NumberPhase) : List Char → Option NumberPhase
  | [] => some phase
  | c :: cs =>
    match phase.next? c with
    | none => none
    | some next => next.run cs

theorem run_append {phase next : NumberPhase} {as : List Char} (h : phase.run as = some next)
    (bs : List Char) : phase.run (as ++ bs) = next.run bs := by
  induction as generalizing phase with
  | nil =>
    obtain rfl := Option.some.inj h
    rfl
  | cons a as ih =>
    rw [run] at h
    rw [List.cons_append, run]
    cases hn : phase.next? a with
    | none => simp [hn] at h
    | some p =>
      rw [hn] at h
      exact ih h

theorem run_digits {phase : NumberPhase}
    (hphase : ∀ c, isDigit c = true → phase.next? c = some phase) {ds : List Char}
    (hds : ∀ c ∈ ds, isDigit c = true) : phase.run ds = some phase := by
  induction ds with
  | nil => rfl
  | cons d ds ih =>
    rw [run, hphase d (hds d List.mem_cons_self)]
    exact ih (fun c hc => hds c (List.mem_cons_of_mem d hc))

end NumberPhase

/-- A text that the reader takes for one number. -/
def IsNumber (text : List Char) : Prop :=
  ∃ c rest phase last, text = c :: rest ∧ NumberPhase.start? c = some phase ∧
    phase.run rest = some last ∧ last.isComplete = true

/-! ## Parts of a number -/

/-- One or more digits. -/
structure IsDigits (ds : List Char) : Prop where
  ne_nil : ds ≠ []
  isDigit : ∀ c ∈ ds, isDigit c = true

/-- Digits without a zero before others. -/
structure IsWhole (ds : List Char) : Prop extends IsDigits ds where
  head : ds.head? = some '0' → ds = ['0']

theorem isWhole_zero : IsWhole ['0'] :=
  ⟨⟨by simp, List.all_eq_true.mp (by decide)⟩, fun _ => rfl⟩

/-- Nothing, or a point and digits. -/
def IsFraction (cs : List Char) : Prop :=
  cs = [] ∨ ∃ ds, cs = '.' :: ds ∧ IsDigits ds

/-- Nothing, or a mark, a sign and digits. -/
def IsExponent (cs : List Char) : Prop :=
  cs = [] ∨ ∃ sign ds, cs = 'e' :: sign :: ds ∧ (sign = '+' ∨ sign = '-') ∧ IsDigits ds

theorem exists_run_exponent {cs : List Char} (h : IsExponent cs) {p : NumberPhase}
    (hcomplete : p.isComplete = true) (hmark : p.next? 'e' = some .mark) :
    ∃ last, p.run cs = some last ∧ last.isComplete = true := by
  rcases h with rfl | ⟨sign, ds, rfl, hsign, hds⟩
  · exact ⟨p, rfl, hcomplete⟩
  · cases ds with
    | nil => exact absurd rfl hds.ne_nil
    | cons d ds =>
      have hd : NumberPhase.markSign.next? d = some .power := by
        simp [NumberPhase.next?, hds.isDigit d List.mem_cons_self]
      have hpower : NumberPhase.power.run ds = some .power :=
        NumberPhase.run_digits (fun c hc => by simp [NumberPhase.next?, hc])
          (fun c hc => hds.isDigit c (List.mem_cons_of_mem d hc))
      have hmarkSign : NumberPhase.mark.next? sign = some .markSign := by
        rcases hsign with rfl | rfl <;> rfl
      refine ⟨.power, ?_, rfl⟩
      simp only [NumberPhase.run, hmark, hmarkSign, hd, hpower]

theorem exists_run_fraction {fraction power : List Char} (hf : IsFraction fraction)
    (hp : IsExponent power) {phase : NumberPhase} (hphase : phase = .zero ∨ phase = .whole) :
    ∃ last, phase.run (fraction ++ power) = some last ∧ last.isComplete = true := by
  rcases hf with rfl | ⟨ds, rfl, hds⟩
  · rcases hphase with rfl | rfl
    · exact exists_run_exponent hp rfl rfl
    · exact exists_run_exponent hp rfl rfl
  · cases ds with
    | nil => exact absurd rfl hds.ne_nil
    | cons d ds =>
      have hd : NumberPhase.point.next? d = some .part := by
        simp [NumberPhase.next?, hds.isDigit d List.mem_cons_self]
      have hpart : NumberPhase.part.run ds = some .part :=
        NumberPhase.run_digits (fun c hc => by simp [NumberPhase.next?, hc])
          (fun c hc => hds.isDigit c (List.mem_cons_of_mem d hc))
      have hpoint : phase.run ('.' :: d :: ds) = some .part := by
        rcases hphase with rfl | rfl
        · simp only [NumberPhase.run, show NumberPhase.zero.next? '.' = some .point from rfl, hd, hpart]
        · simp only [NumberPhase.run, show NumberPhase.whole.next? '.' = some .point from rfl, hd, hpart]
      obtain ⟨last, hlast, hcomplete⟩ := exists_run_exponent (p := .part) hp rfl rfl
      exact ⟨last, (NumberPhase.run_append hpoint power).trans hlast, hcomplete⟩

/-- A whole part, a fraction and an exponent make a number, with a minus before them or without. -/
theorem isNumber_of_parts {whole fraction power : List Char} (hw : IsWhole whole)
    (hf : IsFraction fraction) (hp : IsExponent power) (negative : Bool) :
    IsNumber (if negative then '-' :: (whole ++ (fraction ++ power))
      else whole ++ (fraction ++ power)) := by
  cases whole with
  | nil => exact absurd rfl hw.ne_nil
  | cons d ds =>
    have hd := hw.isDigit d List.mem_cons_self
    -- the first digit decides between a lone zero and any digits
    obtain ⟨phase, hphase, hsign, hstart, hrun⟩ : ∃ phase : NumberPhase,
        (phase = .zero ∨ phase = .whole) ∧ NumberPhase.sign.next? d = some phase ∧
        NumberPhase.start? d = some phase ∧ phase.run ds = some phase := by
      by_cases hzero : d = '0'
      · subst hzero
        obtain rfl : ds = [] := by simpa using hw.head rfl
        exact ⟨.zero, Or.inl rfl, rfl, rfl, rfl⟩
      · have hminus : d ≠ '-' := by
          rintro rfl
          revert hd
          decide
        refine ⟨.whole, Or.inr rfl, by simp [NumberPhase.next?, hzero, hd],
          by simp [NumberPhase.start?, hzero, hminus, hd], ?_⟩
        exact NumberPhase.run_digits (fun c hc => by simp [NumberPhase.next?, hc])
          (fun c hc => hw.isDigit c (List.mem_cons_of_mem d hc))
    obtain ⟨last, hlast, hcomplete⟩ := exists_run_fraction hf hp hphase
    have hall : phase.run (ds ++ (fraction ++ power)) = some last :=
      (NumberPhase.run_append hrun _).trans hlast
    cases negative with
    | false => exact ⟨d, _, phase, last, rfl, hstart, hall, hcomplete⟩
    | true =>
      refine ⟨'-', _, .sign, last, rfl, rfl, ?_, hcomplete⟩
      rw [List.cons_append, NumberPhase.run, hsign]
      exact hall

/-! ## Digits of integers -/

theorem isDigit_of_mem_decimal {n : Nat} {c : Char} (h : c ∈ decimal n) : isDigit c = true := by
  have hd : c.isDigit = true := Nat.isDigit_of_mem_toDigits (by decide) (by decide) h
  simp only [Char.isDigit, Bool.and_eq_true, decide_eq_true_eq] at hd
  simp only [isDigit, Bool.and_eq_true, decide_eq_true_eq]
  exact hd

theorem isDigits_decimal (n : Nat) : IsDigits (decimal n) :=
  ⟨Nat.toDigits_ne_nil, fun _ hc => isDigit_of_mem_decimal hc⟩

/-- No number but zero is written with a zero at the front. -/
theorem head_decimal {n : Nat} (hn : n ≠ 0) : (decimal n).head? ≠ some '0' := by
  induction n using Nat.strongRecOn with
  | ind n ih =>
    unfold decimal
    rw [Nat.toDigits_eq_if (by decide)]
    split
    · next hlt => exact (show ∀ m < 10, m ≠ 0 → [m.digitChar].head? ≠ some '0' by decide) n hlt hn
    · next hge =>
      have hlt : n / 10 < n := Nat.div_lt_self (by omega) (by decide)
      have hhead := ih (n / 10) hlt (by omega)
      unfold decimal at hhead
      cases hds : Nat.toDigits 10 (n / 10) with
      | nil => exact absurd hds Nat.toDigits_ne_nil
      | cons d ds => simpa [hds] using hhead

theorem isWhole_decimal (n : Nat) : IsWhole (decimal n) := by
  refine ⟨isDigits_decimal n, ?_⟩
  intro hhead
  by_cases hn : n = 0
  · rw [hn]
    rfl
  · exact absurd hhead (head_decimal hn)

theorem isNumber_signedDecimal (n : Int) : IsNumber (signedDecimal n) := by
  have h := isNumber_of_parts (isWhole_decimal n.natAbs) (Or.inl rfl) (Or.inl rfl) (decide (n < 0))
  simpa [signedDecimal] using h

theorem digitsValue_decimal (n : Nat) : digitsValue (decimal n) = n := by
  have h := Nat.ofDigitChars_toDigits (b := 10) (n := n) (by decide) (by decide)
  rw [Nat.ofDigitChars_eq_foldl] at h
  simp only [Nat.mul_comm 10] at h
  exact h

/-- An integer of 64 bits. -/
def IsInt64 (n : Int) : Prop :=
  -(Nat.pow 2 63 : Int) ≤ n ∧ n < (Nat.pow 2 63 : Int)

instance (n : Int) : Decidable (IsInt64 n) :=
  inferInstanceAs (Decidable (_ ∧ _))

theorem isInt64_of_wholeNumber? {spelling : List Char} {n : Int}
    (h : Reading.wholeNumber? spelling = some n) : IsInt64 n := by
  have hpow : (0 : Int) < Nat.pow 2 63 := by decide
  unfold Reading.wholeNumber? at h
  unfold IsInt64
  split at h
  next negative digits _ =>
    dsimp only at h
    split at h
    · split at h <;> split at h <;> cases h <;> omega
    · cases h

/-- An integer of 64 bits is read back from its digits. -/
theorem wholeNumber?_signedDecimal {n : Int} (h : IsInt64 n) :
    Reading.wholeNumber? (signedDecimal n) = some n := by
  obtain ⟨hlow, hhigh⟩ := h
  have hall : (decimal n.natAbs).all isDigit = true :=
    List.all_eq_true.mpr (fun c hc => isDigit_of_mem_decimal hc)
  unfold signedDecimal
  split
  · next hneg =>
    have hle : n.natAbs ≤ Nat.pow 2 63 := by omega
    simp only [Reading.wholeNumber?, hall, if_true, digitsValue_decimal, hle]
    simp only [Option.some.injEq]
    omega
  · next hpos =>
    have hlt : n.natAbs < Nat.pow 2 63 := by omega
    unfold Reading.wholeNumber?
    split
    next negative digits hsplit =>
      obtain ⟨rfl, rfl⟩ : negative = false ∧ digits = decimal n.natAbs := by
        split at hsplit
        · next rest hminus =>
          have hd := isDigit_of_mem_decimal (n := n.natAbs) (c := '-') (by rw [hminus]; simp)
          exact absurd hd (by decide)
        · simpa [eq_comm] using hsplit
      simp only [hall, if_true, digitsValue_decimal, hlt, Bool.false_eq_true, if_false,
        Option.some.injEq]
      omega

/-! ## Digits of double precision numbers -/

/-- Zero does not round to a number that is not zero. -/
theorem admits_zero {x : Binary64} (hx : x.mantissa ≠ 0) (p : Int) : x.admits 0 p = false := by
  have hpow : ∀ b k : Nat, b ≠ 0 → 0 < Nat.pow b k := fun b k hb =>
    Nat.pow_pos (Nat.pos_of_ne_zero hb)
  have hscale : ∀ e : Int, 0 < (if p < 0 then Nat.pow 10 p.natAbs else 1)
      * (if 0 ≤ e then Nat.pow 2 e.natAbs else 1) := by
    intro e
    refine Nat.mul_pos ?_ ?_
    · split
      · exact hpow 10 _ (by decide)
      · exact Nat.one_pos
    · split
      · exact hpow 2 _ (by decide)
      · exact Nat.one_pos
  have hlower : 0 < x.interval.1 := by
    simp only [Binary64.interval]
    split <;> omega
  have hproduct := Nat.mul_pos hlower (hscale x.interval.2.2.2)
  simp only [Binary64.admits, Nat.zero_mul]
  split
  · simp only [Bool.and_eq_false_iff, decide_eq_false_iff_not]
    exact Or.inl (Nat.not_le.mpr hproduct)
  · simp only [Bool.and_eq_false_iff, decide_eq_false_iff_not]
    exact Or.inl (Nat.not_lt_zero _)

theorem onGrid?_ne_zero {x : Binary64} (hx : x.mantissa ≠ 0) {p : Int} {places : Nat} {d : Decimal}
    (h : x.onGrid? p places = some d) : d.coefficient ≠ 0 := by
  have hlow : ∀ {low : Nat} {e : Int}, x.admits low e = true → low ≠ 0 := by
    rintro low e hadmits rfl
    rw [admits_zero hx] at hadmits
    cases hadmits
  simp only [Binary64.onGrid?] at h
  split at h
  · next hadmits _ =>
    split at h
    · obtain rfl := Option.some.inj h
      exact hlow hadmits
    · split at h
      · obtain rfl := Option.some.inj h
        exact Nat.succ_ne_zero _
      · split at h
        · obtain rfl := Option.some.inj h
          exact hlow hadmits
        · obtain rfl := Option.some.inj h
          exact Nat.succ_ne_zero _
  · next hadmits _ =>
    obtain rfl := Option.some.inj h
    exact hlow hadmits
  · obtain rfl := Option.some.inj h
    exact Nat.succ_ne_zero _
  · cases h

theorem trimZeros_ne_zero (fuel : Nat) {d : Decimal} (h : d.coefficient ≠ 0) :
    (Decimal.trimZeros fuel d).coefficient ≠ 0 := by
  induction fuel generalizing d with
  | zero => exact h
  | succ fuel ih =>
    rw [Decimal.trimZeros]
    split
    · refine ih ?_
      show d.coefficient / 10 ≠ 0
      omega
    · exact h

/-- The shortest decimal of a number that is not zero is not zero, or it is a plain zero. -/
theorem shortest_cases {x : Binary64} (hx : x.mantissa ≠ 0) :
    x.shortest.coefficient ≠ 0 ∨ x.shortest = ⟨0, 0⟩ := by
  unfold Binary64.shortest
  rw [if_neg hx]
  simp only
  split
  · next d hd =>
    obtain ⟨i, -, hi⟩ := List.exists_of_findSome?_eq_some hd
    exact Or.inl (trimZeros_ne_zero 400 (onGrid?_ne_zero hx hi))
  · by_cases hzero : x.ratio.1 / x.ratio.2 = 0
    · exact Or.inr (by rw [hzero])
    · exact Or.inl hzero

theorem isDigits_zeros_append (n : Nat) {ds : List Char} (h : IsDigits ds) :
    IsDigits (List.replicate n '0' ++ ds) := by
  refine ⟨by simp [h.ne_nil], ?_⟩
  intro c hc
  rcases List.mem_append.mp hc with hc | hc
  · rw [(List.mem_replicate.mp hc).2]
    decide
  · exact h.isDigit c hc

/-- Digits with a point are a number, if no zero stands before others or the point comes right
behind. -/
theorem isNumber_positionalChars {ds : List Char} (h : IsDigits ds) {point : Int}
    (hzero : ds.head? = some '0' → ds = ['0'] ∧ point = 1) (negative : Bool) :
    IsNumber (if negative then '-' :: NumberLayout.positionalChars ds point
      else NumberLayout.positionalChars ds point) := by
  obtain ⟨whole, fraction, heq, hw, hf⟩ : ∃ whole fraction,
      NumberLayout.positionalChars ds point = whole ++ fraction ∧ IsWhole whole ∧
        IsFraction fraction := by
    unfold NumberLayout.positionalChars
    split
    · refine ⟨['0'], _, rfl, isWhole_zero, Or.inr ⟨_, rfl, ?_⟩⟩
      exact isDigits_zeros_append _ h
    · split
      · refine ⟨_, [], (List.append_nil _).symm, ⟨⟨by simp [h.ne_nil], ?_⟩, ?_⟩, Or.inl rfl⟩
        · intro c hc
          rcases List.mem_append.mp hc with hc | hc
          · exact h.isDigit c hc
          · rw [(List.mem_replicate.mp hc).2]
            decide
        · intro hhead
          have hfirst : ds.head? = some '0' := by
            cases ds with
            | nil => exact absurd rfl h.ne_nil
            | cons d ds => simpa using hhead
          obtain ⟨rfl, rfl⟩ := hzero hfirst
          rfl
      · next hpos hlen =>
        have hcut : 0 < point.toNat ∧ point.toNat < ds.length := by omega
        refine ⟨ds.take point.toNat, _, rfl, ⟨⟨?_, ?_⟩, ?_⟩, Or.inr ⟨_, rfl, ?_, ?_⟩⟩
        · intro hnil
          have hlength := List.length_take (i := point.toNat) (l := ds)
          rw [hnil, List.length_nil] at hlength
          omega
        · exact fun c hc => h.isDigit c (List.mem_of_mem_take hc)
        · intro hhead
          rw [List.head?_take, if_neg (Nat.pos_iff_ne_zero.mp hcut.1)] at hhead
          obtain ⟨rfl, rfl⟩ := hzero hhead
          exact absurd hcut.2 (by decide)
        · intro hnil
          have hlength := List.length_drop (i := point.toNat) (l := ds)
          rw [hnil, List.length_nil] at hlength
          omega
        · exact fun c hc => h.isDigit c (List.mem_of_mem_drop hc)
  have hnumber := isNumber_of_parts hw hf (Or.inl rfl) negative
  rw [List.append_nil] at hnumber
  rw [heq]
  exact hnumber

theorem isNumber_scientificChars (width : Nat) {ds : List Char} (h : IsDigits ds) (e : Int)
    (negative : Bool) :
    IsNumber (if negative then '-' :: NumberLayout.scientificChars width ds e
      else NumberLayout.scientificChars width ds e) := by
  have hpower : IsExponent ('e' :: (if e < 0 then '-' else '+') ::
      (List.replicate (width - (decimal e.natAbs).length) '0' ++ decimal e.natAbs)) := by
    refine Or.inr ⟨_, _, rfl, ?_, isDigits_zeros_append _ (isDigits_decimal _)⟩
    split
    · exact Or.inr rfl
    · exact Or.inl rfl
  cases ds with
  | nil => exact absurd rfl h.ne_nil
  | cons d rest =>
    have hwhole : IsWhole [d] := by
      refine ⟨⟨by simp, ?_⟩, ?_⟩
      · intro c hc
        rw [List.mem_singleton.mp hc]
        exact h.isDigit d List.mem_cons_self
      · intro hhead
        simpa using hhead
    cases rest with
    | nil => exact isNumber_of_parts hwhole (Or.inl rfl) hpower negative
    | cons d' rest =>
      have hfraction : IsFraction ('.' :: d' :: rest) :=
        Or.inr ⟨_, rfl, by simp, fun c hc => h.isDigit c (List.mem_cons_of_mem d hc)⟩
      have hnumber := isNumber_of_parts hwhole hfraction hpower negative
      simpa [NumberLayout.scientificChars] using hnumber

/-- What documents write for a double precision number is a number. -/
theorem isNumber_render (x : Binary64) : IsNumber (NumberLayout.document.render x) := by
  by_cases hx : x.mantissa = 0
  · have hnumber := isNumber_of_parts isWhole_zero (Or.inl rfl) (Or.inl rfl) x.negative
    simpa [NumberLayout.render, hx] using hnumber
  · simp only [NumberLayout.render, hx, if_false]
    by_cases hplace : NumberLayout.document.positional
        (x.shortest.exponent + (decimal x.shortest.coefficient).length - 1) = true
    · simp only [hplace, if_true]
      refine isNumber_positionalChars (isDigits_decimal _) ?_ x.negative
      intro hhead
      rcases shortest_cases hx with hne | hzero
      · exact absurd hhead (head_decimal hne)
      · rw [hzero]
        exact ⟨rfl, rfl⟩
    · simp only [hplace, Bool.false_eq_true, if_false]
      exact isNumber_scientificChars _ (isDigits_decimal _) _ x.negative

end FlowScript.Json
