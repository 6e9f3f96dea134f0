import FlowScript.Yaml.Token

/-!
# The characters of a YAML file

A file is UTF-8 unless its first two bytes are the mark of UTF-16 in one of its two byte orders. Where
the bytes are not those of characters, the file cannot be read.

## Main definitions

- `characters` gives the text of a file.
-/

namespace FlowScript.Yaml

/-- The number of octets that follow the first octet of a character, and the bits of the first. -/
def lead? (octet : Nat) : Option (Nat × Nat) :=
  if octet < 0x80 then some (0, octet)
  else if octet < 0xC0 then none
  else if octet < 0xE0 then some (1, octet - 0xC0)
  else if octet < 0xF0 then some (2, octet - 0xE0)
  else if octet < 0xF8 then some (3, octet - 0xF0)
  else none

/-- The least value that needs so many following octets. -/
def leastValue : Nat → Nat
  | 0 => 0
  | 1 => 0x80
  | 2 => 0x800
  | _ => 0x10000

/-- The character with the given value. -/
def scalarChar (value : Nat) : Except Fault Char :=
  if value.isValidChar then .ok (Char.ofNat value) else .error ⟨"invalid Unicode character"⟩

/-- Reads the first character of some octets. -/
def readOctets (first : UInt8) (rest : List UInt8) : Except Fault (Char × List UInt8) := do
  let some (more, bits) := lead? first.toNat | throw ⟨"invalid leading UTF-8 octet"⟩
  let following := rest.take more
  if following.length < more then throw ⟨"incomplete UTF-8 octet sequence"⟩
  let value ← following.foldlM
    (fun value octet =>
      if 0x80 ≤ octet && octet < 0xC0 then .ok (value * 64 + (octet.toNat - 0x80))
      else .error (⟨"invalid trailing UTF-8 octet"⟩ : Fault))
    bits
  if value < leastValue more then throw ⟨"invalid length of a UTF-8 sequence"⟩
  return (← scalarChar value, rest.drop more)

/-- Reads the first character of a list of code units. -/
def readUnits (first : Nat) (rest : List Nat) : Except Fault (Char × List Nat) :=
  if 0xDC00 ≤ first && first < 0xE000 then .error ⟨"unexpected low surrogate area"⟩
  else if 0xD800 ≤ first && first < 0xDC00 then
    match rest with
    | [] => .error ⟨"incomplete UTF-16 surrogate pair"⟩
    | second :: rest =>
      if 0xDC00 ≤ second && second < 0xE000 then do
        return (← scalarChar (0x10000 + (first - 0xD800) * 0x400 + (second - 0xDC00)), rest)
      else .error ⟨"expected low surrogate area"⟩
  else do return (← scalarChar first, rest)

/-- Reads characters one after the other, in at most so many steps. -/
def readAll {α : Type} (read : α → List α → Except Fault (Char × List α)) :
    Nat → List Char → List α → Except Fault (List Char)
  | _, done, [] => .ok done.reverse
  | 0, done, _ => .ok done.reverse
  | steps + 1, done, a :: rest =>
    match read a rest with
    | .error fault => .error fault
    | .ok (c, rest) => readAll read steps (c :: done) rest

/-- The code units of a file, by the order of the bytes in a unit. -/
def units (bigEndian : Bool) (done : List Nat) : List UInt8 → Except Fault (List Nat)
  | [] => .ok done.reverse
  | [_] => .error ⟨"incomplete UTF-16 character"⟩
  | a :: b :: rest =>
    let unit := if bigEndian then a.toNat * 0x100 + b.toNat else b.toNat * 0x100 + a.toNat
    units bigEndian (unit :: done) rest

/-- The text of a file. -/
def characters (bytes : List UInt8) : Except Fault (List Char) := do
  let wide (bigEndian : Bool) (bytes : List UInt8) : Except Fault (List Char) := do
    let units ← units bigEndian [] bytes
    readAll readUnits units.length [] units
  match bytes with
  | 0xFF :: 0xFE :: rest => wide false rest
  | 0xFE :: 0xFF :: rest => wide true rest
  | bytes => readAll readOctets bytes.length [] bytes

end FlowScript.Yaml
