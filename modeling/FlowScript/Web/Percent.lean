import FlowScript.Text.Hex
import FlowScript.Text.Utf8

/-!
# Percent signs in addresses

A percent sign and two hexadecimal digits stand for one byte. Bytes that belong together are one
character.
-/

namespace FlowScript.Web

open Text

/-- Replaces every escape by its byte; none if a percent sign is not followed by two digits. -/
def unescapeBytes? : List UInt8 → Option (List UInt8)
  | [] => some []
  | 0x25 :: a :: b :: rest => do
    let high ← hexValue? (Char.ofNat a.toNat)
    let low ← hexValue? (Char.ofNat b.toNat)
    return UInt8.ofNat (high * 16 + low) :: (← unescapeBytes? rest)
  | b :: rest => if b == 0x25 then none else do return b :: (← unescapeBytes? rest)

/-- The text with its escapes replaced. -/
def unescape? (cs : List Char) : Option (List Char) :=
  (unescapeBytes? (Utf8.encode cs)).map Utf8.decode

/-- A character that needs no escape in the path of an address. -/
def isPathChar (c : Char) : Bool :=
  c.isAlphanum || "-_.~$&+,/:;=@".toList.contains c

/-- A path as an address spells it. -/
def escapePath (cs : List Char) : List Char :=
  cs.flatMap (fun c =>
    if isPathChar c then [c]
    else (Utf8.encode [c]).flatMap (fun b =>
      ['%', hexDigitUpper (b.toNat / 16), hexDigitUpper (b.toNat % 16)]))

end FlowScript.Web
