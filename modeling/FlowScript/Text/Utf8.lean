/-!
# Bytes of texts

Texts as UTF-8 bytes and back. Bytes that are no part of a well-formed character are read as the
replacement character, one for each byte.
-/

namespace FlowScript.Utf8

/-- The bytes of a text. -/
def encode (cs : List Char) : List UInt8 :=
  cs.flatMap String.utf8EncodeChar

/-- The character that stands for a byte outside every character. -/
def replacement : Char := Char.ofNat 0xFFFD

/-- How far the reading of a byte sequence has come. -/
structure Reader where
  /-- The characters read, last one first. -/
  done : List Char := []
  /-- The number of bytes of the character that is being read. -/
  pending : Nat := 0
  /-- The number of bytes it still needs; zero between characters. -/
  need : Nat := 0
  /-- The bits that the bytes read so far contribute. -/
  code : Nat := 0
  /-- The least value of the next byte. -/
  low : Nat := 0x80
  /-- The greatest value of the next byte. -/
  high : Nat := 0xBF

/-- Gives up the character that is being read: each of its bytes is replaced. -/
def Reader.abandon (r : Reader) : Reader :=
  { done := List.replicate r.pending replacement ++ r.done }

/-- Reads the first byte of a character. The range of the second byte rules out characters with too
many bytes, surrogates and values beyond the last character. -/
def Reader.start (r : Reader) (b : Nat) : Reader :=
  if b < 0x80 then { done := Char.ofNat b :: r.done }
  else if 0xC2 ≤ b && b ≤ 0xDF then { done := r.done, pending := 1, need := 1, code := b - 0xC0 }
  else if 0xE0 ≤ b && b ≤ 0xEF then
    { done := r.done, pending := 1, need := 2, code := b - 0xE0,
      low := if b == 0xE0 then 0xA0 else 0x80, high := if b == 0xED then 0x9F else 0xBF }
  else if 0xF0 ≤ b && b ≤ 0xF4 then
    { done := r.done, pending := 1, need := 3, code := b - 0xF0,
      low := if b == 0xF0 then 0x90 else 0x80, high := if b == 0xF4 then 0x8F else 0xBF }
  else { done := replacement :: r.done }

/-- Reads one byte. -/
def Reader.step (r : Reader) (byte : UInt8) : Reader :=
  let b := byte.toNat
  if r.need == 0 then r.start b
  else if r.low ≤ b && b ≤ r.high then
    let code := r.code * 64 + (b - 0x80)
    if r.need == 1 then { done := Char.ofNat code :: r.done }
    else { done := r.done, pending := r.pending + 1, need := r.need - 1, code }
  else r.abandon.start b

/-- The text that bytes stand for. -/
def decode (bytes : List UInt8) : List Char :=
  (bytes.foldl Reader.step {}).abandon.done.reverse

/-- The number of bytes of a character. -/
def size (c : Char) : Nat :=
  c.utf8Size

end FlowScript.Utf8
