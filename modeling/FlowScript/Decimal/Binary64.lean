/-!
# Double precision numbers

Finite binary numbers of 53 bits are kept exactly, as a sign, a mantissa and an exponent, so reading
and writing them is plain integer arithmetic. Number values of documents are of this kind. The
coordinates of a canvas are computed by others, and arithmetic on finite numbers can leave them: a
`Double` may also be infinite, or no number at all.
-/

namespace FlowScript

/-- A finite number `± mantissa · 2 ^ exponent` with a mantissa of at most 53 bits. The exponent is
as small as the format allows, so equal numbers of one sign are equal structures. -/
structure Binary64 where
  negative : Bool
  mantissa : Nat
  exponent : Int
  deriving DecidableEq

namespace Binary64

/-- The smallest exponent. -/
def minExponent : Int := -1074

/-- The largest exponent. -/
def maxExponent : Int := 971

/-- Zero of the given sign. -/
def zeroOf (negative : Bool) : Binary64 := ⟨negative, 0, minExponent⟩

/-- Positive zero. -/
def zero : Binary64 := zeroOf false

instance : Inhabited Binary64 := ⟨zero⟩

/-- The quotient rounded to the nearest integer, a half to the even neighbour. -/
def roundDiv (num den : Nat) : Nat :=
  let q := num / den
  let r := num % den
  if 2 * r < den then q
  else if den < 2 * r then q + 1
  else if q % 2 = 0 then q else q + 1

/-- Numerator and denominator of `num / den / 2 ^ e`. -/
def scaled (num den : Nat) (e : Int) : Nat × Nat :=
  if 0 ≤ e then (num, den * Nat.pow 2 e.toNat) else (num * Nat.pow 2 (-e).toNat, den)

/-- The number nearest to `num / den`, or none when it lies beyond the largest number. -/
def ofRatio (negative : Bool) (num den : Nat) : Option Binary64 :=
  if num = 0 then some (zeroOf negative)
  else
    let guess : Int := (num.log2 : Int) - (den.log2 : Int) - 53
    let e := if guess < minExponent then minExponent else guess
    let (n, d) := scaled num den e
    let e := if n / d < Nat.pow 2 53 then e else e + 1
    let (n, d) := scaled num den e
    let m := roundDiv n d
    let (m, e) := if m = Nat.pow 2 53 then (Nat.pow 2 52, e + 1) else (m, e)
    if maxExponent < e then none else some ⟨negative, m, e⟩

/-- The number nearest to `coefficient · 10 ^ exponent`, or none when it is too large. Exponents far
outside the range of the format are decided without computing the power. -/
def ofDecimal (negative : Bool) (coefficient : Nat) (exponent : Int) : Option Binary64 :=
  if coefficient = 0 then some (zeroOf negative)
  else
    let places : Int := (Nat.toDigits 10 coefficient).length
    if 310 ≤ places + exponent then none
    else if places + exponent ≤ -324 then some (zeroOf negative)
    else if 0 ≤ exponent then ofRatio negative (coefficient * Nat.pow 10 exponent.toNat) 1
    else ofRatio negative coefficient (Nat.pow 10 (-exponent).toNat)

/-- The number nearest to an integer, or none when it is too large. -/
def ofInt (n : Int) : Option Binary64 :=
  ofRatio (n < 0) n.natAbs 1

/-- The magnitude as numerator and denominator. -/
def ratio (x : Binary64) : Nat × Nat :=
  if 0 ≤ x.exponent then (x.mantissa * Nat.pow 2 x.exponent.toNat, 1)
  else (x.mantissa, Nat.pow 2 (-x.exponent).toNat)

/-- The value scaled by the smallest power of two of the format: an order-preserving integer. -/
def key (x : Binary64) : Int :=
  let magnitude : Int := (x.mantissa * Nat.pow 2 (x.exponent - minExponent).toNat : Nat)
  if x.negative then -magnitude else magnitude

/-- The numerical order; the two zeros are equal. -/
def lt (x y : Binary64) : Bool :=
  x.key < y.key

/-- The integer part. -/
def truncate (x : Binary64) : Int :=
  let (n, d) := x.ratio
  if x.negative then -((n / d : Nat) : Int) else ((n / d : Nat) : Int)

end Binary64

/-- A double precision number, finite or not. -/
inductive Double where
  | finite (x : Binary64)
  | infinity (negative : Bool)
  /-- Not a number. -/
  | nan
  deriving DecidableEq

namespace Double

instance : Coe Binary64 Double := ⟨finite⟩

instance : Inhabited Double := ⟨finite .zero⟩

/-- Zero. -/
def zero : Double := finite .zero

/-- The numerical order. What is not a number is neither before nor behind anything. -/
def lt : Double → Double → Bool
  | finite x, finite y => x.lt y
  | finite _, infinity negative => !negative
  | infinity negative, finite _ => negative
  | infinity a, infinity b => a && !b
  | nan, _ | _, nan => false

/-- Numerical equality. The two zeros are equal, and what is not a number equals nothing. -/
def eq : Double → Double → Bool
  | finite x, finite y => x.key == y.key
  | infinity a, infinity b => a == b
  | _, _ => false

end Double

end FlowScript
