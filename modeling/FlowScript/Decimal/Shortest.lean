import FlowScript.Decimal.Binary64

/-!
# Shortest decimals

The fewest significant digits that read back as the same number and, among those, the decimal
nearest to it. For each count of digits, from one to seventeen, the two neighbours of the number on
the grid of that many digits are tried; all comparisons are exact.
-/

namespace FlowScript

/-- A decimal `coefficient · 10 ^ exponent`. -/
structure Decimal where
  coefficient : Nat
  exponent : Int
  deriving DecidableEq

namespace Decimal

/-- Moves zeros at the end of the coefficient into the exponent. -/
def trimZeros : Nat → Decimal → Decimal
  | 0, d => d
  | fuel + 1, d =>
    if d.coefficient ≠ 0 ∧ d.coefficient % 10 = 0 then
      trimZeros fuel ⟨d.coefficient / 10, d.exponent + 1⟩
    else d

/-- Numerator and denominator of `num / den / 10 ^ p`. -/
def scaled (num den : Nat) (p : Int) : Nat × Nat :=
  if 0 ≤ p then (num, den * Nat.pow 10 p.toNat) else (num * Nat.pow 10 (-p).toNat, den)

/-- The power of ten just above `num / den`: the least `p` with `num / den < 10 ^ p`. -/
def magnitude (num den : Nat) : Int :=
  if den ≤ num then ((Nat.toDigits 10 (num / den)).length : Int)
  else
    let below : Int := (Nat.toDigits 10 (den / num)).length
    if num * Nat.pow 10 (below - 1).toNat = den then 2 - below else 1 - below

end Decimal

namespace Binary64

/-- The interval of reals that round to a non-zero magnitude, in quarters of its last place: lower
end, value and upper end, with the common exponent of two. -/
def interval (x : Binary64) : Nat × Nat × Nat × Int :=
  let below := if x.mantissa = Nat.pow 2 52 ∧ minExponent < x.exponent then 1 else 2
  (4 * x.mantissa - below, 4 * x.mantissa, 4 * x.mantissa + 2, x.exponent - 2)

/-- The decimal `d · 10 ^ p` lies in the interval of `x`; the ends belong to it when the mantissa is
even. -/
def admits (x : Binary64) (d : Nat) (p : Int) : Bool :=
  let (lower, _, upper, e) := x.interval
  -- compare `d · 10 ^ p` with `lower · 2 ^ e` and `upper · 2 ^ e`
  let tens := Nat.pow 10 p.natAbs
  let twos := Nat.pow 2 e.natAbs
  let left := d * (if 0 ≤ p then tens else 1) * (if e < 0 then twos else 1)
  let scale := (if p < 0 then tens else 1) * (if 0 ≤ e then twos else 1)
  if x.mantissa % 2 = 0 then lower * scale ≤ left && left ≤ upper * scale
  else lower * scale < left && left < upper * scale

/-- The best decimal with `places` digits, if one reads back as `x`. `p` is the power of ten just
above `x`. -/
def onGrid? (x : Binary64) (p : Int) (places : Nat) : Option Decimal :=
  let e := p - places
  let (num, den) := x.ratio
  let (n, d) := Decimal.scaled num den e
  let low := n / d
  let rest := n % d
  match x.admits low e, x.admits (low + 1) e with
  | true, true =>
    if 2 * rest < d then some ⟨low, e⟩
    else if d < 2 * rest then some ⟨low + 1, e⟩
    else if low % 2 = 0 then some ⟨low, e⟩ else some ⟨low + 1, e⟩
  | true, false => some ⟨low, e⟩
  | false, true => some ⟨low + 1, e⟩
  | false, false => none

/-- The shortest decimal that reads back as the magnitude of `x`. -/
def shortest (x : Binary64) : Decimal :=
  if x.mantissa = 0 then ⟨0, 0⟩
  else
    let (num, den) := x.ratio
    let p := Decimal.magnitude num den
    match (List.range 17).findSome? (fun i => x.onGrid? p (i + 1)) with
    | some d => Decimal.trimZeros 400 d
    | none => ⟨num / den, 0⟩

end Binary64

end FlowScript
