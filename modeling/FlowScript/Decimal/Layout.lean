import FlowScript.Decimal.Shortest
import FlowScript.Text.Hex

/-!
# Written numbers

How the shortest decimal of a number is laid out, and how decimal texts are read. A layout says
where positional notation ends and how an exponent is written.
-/

namespace FlowScript

open Text

/-- The decisions of a number format. -/
structure NumberLayout where
  /-- Positional notation is used for this scientific exponent. -/
  positional : Int → Bool
  /-- The least number of digits of a written exponent. -/
  exponentWidth : Nat

namespace NumberLayout

/-- Documents write numbers positionally from a millionth up to below 10 ^ 21, and exponents without
leading zeros. -/
def document : NumberLayout := ⟨fun e => -6 ≤ e && e < 21, 1⟩

/-- Log lines and outlines write numbers positionally from a ten-thousandth up to below a million,
and exponents with at least two digits. -/
def brief : NumberLayout := ⟨fun e => -4 ≤ e && e < 6, 2⟩

/-- The digits of a decimal with a point after the first `point` of them; `point` may lie outside of
the digits. -/
def positionalChars (digits : List Char) (point : Int) : List Char :=
  if point ≤ 0 then '0' :: '.' :: (List.replicate (-point).toNat '0' ++ digits)
  else if (digits.length : Int) ≤ point then
    digits ++ List.replicate (point.toNat - digits.length) '0'
  else digits.take point.toNat ++ '.' :: digits.drop point.toNat

/-- The digits with a point after the first, and the exponent. -/
def scientificChars (width : Nat) (digits : List Char) (e : Int) : List Char :=
  let front :=
    match digits with
    | [] => ['0']
    | [d] => [d]
    | d :: rest => d :: '.' :: rest
  let size := decimal e.natAbs
  let size := List.replicate (width - size.length) '0' ++ size
  front ++ 'e' :: (if e < 0 then '-' else '+') :: size

/-- A number in the given layout. -/
def render (layout : NumberLayout) (x : Binary64) : List Char :=
  let body :=
    if x.mantissa = 0 then ['0']
    else
      let d := x.shortest
      let digits := decimal d.coefficient
      let e := d.exponent + digits.length - 1
      if layout.positional e then positionalChars digits (e + 1)
      else scientificChars layout.exponentWidth digits e
  if x.negative then '-' :: body else body

end NumberLayout

/-- A number in a layout, or the name of what is not finite. -/
def Double.render (layout : NumberLayout) : Double → String
  | finite x => String.ofList (layout.render x)
  | infinity true => "-Inf"
  | infinity false => "+Inf"
  | nan => "NaN"

/-- The wording for a number that has no JSON form. -/
def Double.unsupported (x : Double) : String :=
  "json: unsupported value: " ++ x.render .brief

namespace Binary64

/-- Reads a decimal: an optional sign, digits with an optional point, and an optional exponent. At
least one digit is needed. -/
def split? (cs : List Char) : Option (Bool × Nat × Int) :=
  let (negative, cs) :=
    match cs with
    | '-' :: rest => (true, rest)
    | '+' :: rest => (false, rest)
    | cs => (false, cs)
  let whole := cs.takeWhile isDigit
  let cs := cs.dropWhile isDigit
  let (part, cs) :=
    match cs with
    | '.' :: rest => (rest.takeWhile isDigit, rest.dropWhile isDigit)
    | cs => ([], cs)
  if whole.isEmpty && part.isEmpty then none
  else
    let coefficient := digitsValue (whole ++ part)
    let done (e : Int) := some (negative, coefficient, e - part.length)
    match cs with
    | [] => done 0
    | c :: rest =>
      if c == 'e' || c == 'E' then
        let (sign, digits) :=
          match rest with
          | '-' :: more => ((-1 : Int), more)
          | '+' :: more => (1, more)
          | more => (1, more)
        if digits.isEmpty || !digits.all isDigit then none
        else done (sign * digitsValue digits)
      else none

/-- The result of reading a decimal text. -/
inductive Reading where
  /-- The text is no decimal. -/
  | malformed
  /-- The decimal lies beyond the largest number. -/
  | tooLarge
  /-- The nearest number. -/
  | number (x : Binary64)

/-- Reads a decimal text as the nearest number. -/
def read (cs : List Char) : Reading :=
  match split? cs with
  | none => .malformed
  | some (negative, coefficient, e) =>
    match ofDecimal negative coefficient e with
    | none => .tooLarge
    | some x => .number x

end Binary64

end FlowScript
