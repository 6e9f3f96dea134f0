/-!
# Base 64

Bytes as text over an alphabet of 64 symbols, four symbols for three bytes, filled up with `=`.
Reading skips line breaks and reports the offset of the first character that is out of place. The bits
of the last symbol that no byte needs are not looked at.
-/

namespace FlowScript.Base64

/-- The value of a symbol. -/
def value? (c : Char) : Option Nat :=
  if 'A' ≤ c && c ≤ 'Z' then some (c.toNat - 65)
  else if 'a' ≤ c && c ≤ 'z' then some (c.toNat - 71)
  else if '0' ≤ c && c ≤ '9' then some (c.toNat + 4)
  else if c == '+' then some 62
  else if c == '/' then some 63
  else none

/-- The symbol of a value below 64. -/
def symbol (n : Nat) : Char :=
  if n < 26 then Char.ofNat (65 + n)
  else if n < 52 then Char.ofNat (71 + n)
  else if n < 62 then Char.ofNat (n - 4)
  else if n == 62 then '+'
  else '/'

/-- Where in a group of four symbols the reading stands. -/
inductive Phase where
  /-- So many symbols of the group were read. -/
  | symbols (count : Nat)
  /-- Two symbols and one filler were read. -/
  | filler
  /-- The last group is complete. -/
  | closed

/-- How far a text was read. -/
structure Reader where
  /-- The bytes read, last one first. -/
  bytes : List UInt8 := []
  phase : Phase := .symbols 0
  /-- The bits of the group that were read, as a number. -/
  bits : Nat := 0

/-- The bytes that a closed group of two or three symbols adds. -/
def Reader.close (r : Reader) (count : Nat) : Reader :=
  if count == 2 then { r with bytes := UInt8.ofNat (r.bits / 16) :: r.bytes, phase := .closed }
  else
    { r with
      bytes := UInt8.ofNat (r.bits / 4) :: UInt8.ofNat (r.bits / 1024) :: r.bytes
      phase := .closed }

/-- Reads the character at an offset; fails with the offset of what is out of place. -/
def Reader.step (r : Reader) (offset : Nat) (c : Char) : Except Nat Reader :=
  if c == '\r' || c == '\n' then .ok r
  else
    match r.phase with
    | .closed => .error offset
    | .filler => if c == '=' then .ok (r.close 2) else .error (offset - 1)
    | .symbols count =>
      if c == '=' then
        if count == 2 then .ok { r with phase := .filler }
        else if count == 3 then .ok (r.close 3)
        else .error offset
      else
        match value? c with
        | none => .error offset
        | some v =>
          let bits := r.bits * 64 + v
          if count == 3 then
            .ok {
              bytes := UInt8.ofNat bits :: UInt8.ofNat (bits / 256) :: UInt8.ofNat (bits / 65536)
                :: r.bytes }
          else .ok { r with phase := .symbols (count + 1), bits }

/-- Reads the characters from an offset on and then the end of the text. -/
def Reader.run (r : Reader) (offset : Nat) : List Char → Except Nat (List UInt8)
  | [] =>
    match r.phase with
    | .symbols 0 => .ok r.bytes.reverse
    | .symbols count => .error (offset - count)
    | .filler => .error offset
    | .closed => .ok r.bytes.reverse
  | c :: cs =>
    match r.step offset c with
    | .ok r => r.run (offset + 1) cs
    | .error offset => .error offset

/-- The bytes that a text stands for, or the offset of what is out of place. -/
def decode (cs : List Char) : Except Nat (List UInt8) :=
  ({} : Reader).run 0 cs

/-- The symbols of up to three bytes. -/
def group (a b c : Nat) : List Char :=
  [symbol (a / 4), symbol (a % 4 * 16 + b / 16), symbol (b % 16 * 4 + c / 64), symbol (c % 64)]

/-- Writes bytes in front of the reversed text. -/
def encodeOnto (done : List Char) : List UInt8 → List Char
  | [] => done.reverse
  | [a] => ('=' :: '=' :: ((group a.toNat 0 0).take 2).reverse ++ done).reverse
  | [a, b] => ('=' :: ((group a.toNat b.toNat 0).take 3).reverse ++ done).reverse
  | a :: b :: c :: rest => encodeOnto ((group a.toNat b.toNat c.toNat).reverse ++ done) rest

/-- The text of bytes. -/
def encode (bytes : List UInt8) : List Char :=
  encodeOnto [] bytes

/-- The wording of a fault at an offset. -/
def faultMessage (offset : Nat) : String :=
  "illegal base64 data at input byte " ++ toString offset

end FlowScript.Base64
