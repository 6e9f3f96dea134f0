import FlowScript.Text.Hex
import FlowScript.Text.Quoted

/-!
# Numbers and truth values on the command line

An integer is written with an optional sign, an optional mark of its base and digits, which
underscores may divide. A leading zero alone marks base eight.
-/

namespace FlowScript

open Text

/-- Why a text is no value of the wanted kind. -/
inductive WordFault where
  | malformed
  | tooLarge
  deriving DecidableEq

/-- The wording of a fault. -/
def WordFault.message : WordFault → String
  | malformed => "invalid syntax"
  | tooLarge => "value out of range"

namespace Numeral

/-- The value of a digit in bases up to thirty-six. -/
def digit? (c : Char) : Option Nat :=
  if isDigit c then some (c.toNat - 48)
  else if 'a' ≤ c && c ≤ 'z' then some (c.toNat - 87)
  else if 'A' ≤ c && c ≤ 'Z' then some (c.toNat - 55)
  else none

/-- The base that the front of an unsigned numeral marks, and the digits that follow. -/
def based : List Char → Nat × List Char
  | '0' :: m :: c :: rest =>
    if m == 'b' || m == 'B' then (2, c :: rest)
    else if m == 'o' || m == 'O' then (8, c :: rest)
    else if m == 'x' || m == 'X' then (16, c :: rest)
    else (8, m :: c :: rest)
  | '0' :: rest => (8, rest)
  | cs => (10, cs)

/-- The digits as a number of 64 bits without a sign; underscores are skipped. -/
def magnitude (base : Nat) (n : Nat) : List Char → Except WordFault Nat
  | [] => .ok n
  | '_' :: rest => magnitude base n rest
  | c :: rest =>
    match digit? c with
    | none => .error .malformed
    | some d =>
      if base ≤ d then .error .malformed
      else if Nat.pow 2 64 ≤ n * base + d then .error .tooLarge
      else magnitude base (n * base + d) rest

/-- Each underscore follows a digit, or the mark of the base, and precedes one. The first argument
tells whether a digit or a mark came last. -/
def dividesWell (after : Bool) : List Char → Bool
  | [] => true
  | ['_'] => false
  | '_' :: '_' :: _ => false
  | '_' :: rest => after && dividesWell false rest
  | _ :: rest => dividesWell true rest

/-- Reads a number of 64 bits without a sign. -/
def readUnsigned (cs : List Char) : Except WordFault Nat :=
  if cs.isEmpty then .error .malformed
  else
    let (base, digits) := based cs
    match magnitude base 0 digits with
    | .error e => .error e
    | .ok n => if dividesWell (base != 10) digits then .ok n else .error .malformed

/-- Reads an integer of 64 bits. -/
def read (s : String) : Except WordFault Int :=
  match s.toList with
  | '-' :: rest => do
    let n ← readUnsigned rest
    if Nat.pow 2 63 < n then .error .tooLarge else return -n
  | cs => do
    let n ← readUnsigned (if cs.head? == some '+' then cs.drop 1 else cs)
    if Nat.pow 2 63 ≤ n then .error .tooLarge else return n

/-- The wording for a text that is no integer. -/
def complaint (s : String) (fault : WordFault) : String :=
  "strconv.ParseInt: parsing " ++ quoted s ++ ": " ++ fault.message

end Numeral

namespace TruthValue

/-- Reads a truth value. -/
def read? (s : String) : Option Bool :=
  if ["1", "t", "T", "true", "TRUE", "True"].contains s then some true
  else if ["0", "f", "F", "false", "FALSE", "False"].contains s then some false
  else none

/-- The wording for a text that is no truth value. -/
def complaint (s : String) : String :=
  "strconv.ParseBool: parsing " ++ quoted s ++ ": " ++ WordFault.malformed.message

end TruthValue

end FlowScript
