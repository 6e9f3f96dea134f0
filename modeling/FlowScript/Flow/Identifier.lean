import FlowScript.Text.Hex

/-!
# Fresh identifiers

Identifiers are cut out of random 128-bit tokens. The tokens come from a supply that hands them out
one after the other, so what is drawn, and in which order, is part of every result that draws.
-/

namespace FlowScript

open Text

/-- A source of random tokens: sixteen bytes per token, numbered from one, and how many have been
drawn. -/
structure Supply where
  bytes : Nat → List Nat
  drawn : Nat := 0

namespace Supply

/-- Marks sixteen bytes as a random token: four bits give the version and two the variant. -/
def stamped (bytes : List Nat) : List Nat :=
  bytes.mapIdx (fun i b =>
    if i = 6 then b % 16 + 0x40 else if i = 8 then b % 64 + 0x80 else b)

/-- The digits of the next token, and the supply after it. -/
def next (s : Supply) : List Char × Supply :=
  ((stamped (s.bytes (s.drawn + 1))).flatMap (hex 2), { s with drawn := s.drawn + 1 })

/-- The next token in five groups. -/
def nextGrouped (s : Supply) : String × Supply :=
  let (digits, s) := s.next
  let group (start size : Nat) := (digits.drop start).take size
  (String.ofList (group 0 8 ++ '-' :: group 8 4 ++ '-' :: group 12 4 ++ '-' :: group 16 4 ++
    '-' :: group 20 12), s)

/-- The first `n` digits of the next token. -/
def nextShort (n : Nat) (s : Supply) : String × Supply :=
  let (digits, s) := s.next
  (String.ofList (digits.take n), s)

/-- A fresh identifier of the given sort. -/
def nextId (sort : String) (s : Supply) : String × Supply :=
  let (short, s) := s.nextShort 10
  (sort ++ "_" ++ short, s)

end Supply

/-- An ASCII letter, digit or underscore. -/
def isWordChar (c : Char) : Bool :=
  ('a' ≤ c && c ≤ 'z') || ('A' ≤ c && c ≤ 'Z') || ('0' ≤ c && c ≤ '9') || c == '_'

end FlowScript
