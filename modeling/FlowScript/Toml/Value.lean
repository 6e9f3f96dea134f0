import FlowScript.Decimal.Layout
import FlowScript.Text.Search
import FlowScript.Time.Calendar

/-!
# Values of a TOML document

The values, and how those that are written as one word are read: truth values, numbers, dates and
times. An underscore may divide digits but only stands between two of them.
-/

namespace FlowScript.Toml

open Text

/-- A number with a point or an exponent, or one of the special values. -/
inductive Real where
  | finite (x : Binary64)
  | infinite (negative : Bool)
  | undefined

/-- A value. What a date or a time tells is not kept. -/
inductive Value where
  | text (s : String)
  | int (n : Int)
  | real (x : Real)
  | bool (b : Bool)
  | time
  | array (items : List Value)
  | table (members : List (String × Value))

/-- The integers of 64 bits. -/
def isWord (n : Int) : Bool :=
  -(Nat.pow 2 63 : Int) ≤ n && n < (Nat.pow 2 63 : Int)

/-- Digits without their underscores; each underscore has to stand between two digits. -/
def dropDividers? (isPart : Char → Bool) : List Char → Option (List Char)
  | [] => some []
  | ['_'] => none
  | [c] => some [c]
  | '_' :: _ :: _ => none
  | c :: '_' :: d :: rest =>
    if isPart c && isPart d then (dropDividers? isPart (d :: rest)).map (c :: ·) else none
  | c :: rest => (dropDividers? isPart rest).map (c :: ·)

/-- The number that digits write in a base up to sixteen; at least one is needed. -/
def digitsIn? (base : Nat) (cs : List Char) : Option Nat :=
  if cs.isEmpty then none
  else
    cs.foldlM
      (fun n c => do
        let d ← hexValue? c
        if d < base then some (n * base + d) else none)
      0

/-- The digit has a value below the base. -/
def isDigitIn (base : Nat) (c : Char) : Bool :=
  match hexValue? c with
  | some d => d < base
  | none => false

/-- Splits a sign from the front; the second part tells whether it is a minus. -/
def splitSign : List Char → Bool × List Char
  | '-' :: rest => (true, rest)
  | '+' :: rest => (false, rest)
  | cs => (false, cs)

/-- A decimal part that starts with a zero and goes on with a digit. -/
def hasLeadingZero : List Char → Bool
  | '0' :: c :: _ => isDigit c
  | _ => false

/-- Reads an integer in decimal digits. -/
def int? (cs : List Char) : Option Int := do
  let (negative, digits) := splitSign cs
  let digits ← dropDividers? isDigit digits
  if hasLeadingZero digits then none
  else
    let n ← digitsIn? 10 digits
    let n : Int := if negative then -n else n
    if isWord n then some n else none

/-- Reads the digits of an integer after the mark of its base. -/
def markedInt? (base : Nat) (cs : List Char) : Option Int := do
  let n ← digitsIn? base (← dropDividers? (isDigitIn base) cs)
  if isWord n then some n else none

/-- Every point stands between two digits. -/
def pointsDivide : List Char → Bool
  | [] => true
  | ['.'] => false
  | [_] => true
  | '.' :: _ :: _ => false
  | c :: '.' :: d :: rest => isDigit c && isDigit d && pointsDivide (d :: rest)
  | _ :: rest => pointsDivide rest

/-- Reads a number with a point or an exponent. -/
def real? (cs : List Char) : Option Real := do
  let (negative, body) := splitSign cs
  if body = "inf".toList then some (.infinite negative)
  else if body = "nan".toList then some .undefined
  else
    let body ← dropDividers? isDigit body
    if hasLeadingZero body || !pointsDivide body || !(body.head?.any isDigit) then none
    else
      match Binary64.read (if negative then '-' :: body else body) with
      | .number x => some (.finite x)
      | _ => none

/-- A character of a decimal number. -/
def isNumberChar (c : Char) : Bool :=
  isDigit c || c == '+' || c == '-' || c == '_' || c == '.' || c == 'e' || c == 'E'

/-- A number with a point or an exponent is no integer. -/
def isRealChar (c : Char) : Bool :=
  c == '.' || c == 'e' || c == 'E'

/-- Reads a number at the front. -/
def number? (cs : List Char) : Option (Value × List Char) :=
  let marked (base : Nat) (rest : List Char) : Option (Value × List Char) :=
    let isPart (c : Char) : Bool := isDigitIn base c || c == '_'
    (markedInt? base (rest.takeWhile isPart)).map
      (fun n => (.int n, rest.dropWhile isPart))
  let plain : Option (Value × List Char) :=
    let word := cs.takeWhile isNumberChar
    let rest := cs.dropWhile isNumberChar
    match rest with
    | 'i' :: 'n' :: 'f' :: rest => (real? (word ++ "inf".toList)).map (fun x => (.real x, rest))
    | 'n' :: 'a' :: 'n' :: rest => (real? (word ++ "nan".toList)).map (fun x => (.real x, rest))
    | rest =>
      if word.any isRealChar then (real? word).map (fun x => (.real x, rest))
      else (int? word).map (fun n => (.int n, rest))
  match cs with
  | '0' :: 'x' :: rest => marked 16 rest
  | '0' :: 'o' :: rest => marked 8 rest
  | '0' :: 'b' :: rest => marked 2 rest
  | _ => plain

/-- A date, and what follows it. -/
def date? (cs : List Char) : Option (List Char) := do
  let (year, cs) ← Moment.digits? 4 cs
  let (month, cs) ← Moment.digits? 2 (← Moment.expect '-' cs)
  let (day, cs) ← Moment.digits? 2 (← Moment.expect '-' cs)
  if (⟨year, month, day⟩ : Date).isValid then some cs else none

/-- A time of the day, and what follows it. -/
def clockTime? (cs : List Char) : Option (List Char) := do
  let (hour, cs) ← Moment.digits? 2 cs
  let (minute, cs) ← Moment.digits? 2 (← Moment.expect ':' cs)
  let (second, cs) ← Moment.digits? 2 (← Moment.expect ':' cs)
  if 24 ≤ hour || 60 ≤ minute || 60 ≤ second then none
  else
    match cs with
    | '.' :: rest => if rest.head?.any isDigit then some (rest.dropWhile isDigit) else none
    | cs => some cs

/-- The offset of a time, to the end. -/
def isOffset (cs : List Char) : Bool :=
  let far : Option Bool := do
    let (_, rest) ← match cs with
      | c :: rest => if c == '+' || c == '-' then some (c, rest) else none
      | [] => none
    let (hours, rest) ← Moment.digits? 2 rest
    let (minutes, rest) ← Moment.digits? 2 (← Moment.expect ':' rest)
    return hours < 24 && minutes < 60 && rest.isEmpty
  cs = ['Z'] || cs = ['z'] || far.getD false

/-- The word is a date, a time of the day, or both with or without an offset. -/
def isTime (word : List Char) : Bool :=
  match date? word with
  | none => clockTime? word = some []
  | some [] => true
  | some (c :: rest) =>
    (c == 'T' || c == 't' || c == ' ')
      && match clockTime? rest with
        | none => false
        | some rest => rest.isEmpty || isOffset rest

/-- A character of a date or a time. -/
def isTimeChar (c : Char) : Bool :=
  isDigit c || "-:.+TtZz".toList.contains c

/-- Splits a date or a time from the front. One blank may stand in it, before a digit. -/
def timeWord (spaced : Bool) : List Char → List Char × List Char
  | [] => ([], [])
  | c :: rest =>
    let blank := c == ' ' && !spaced && rest.head?.any isDigit
    if isTimeChar c || blank then
      let (word, rest) := timeWord (spaced || blank) rest
      (c :: word, rest)
    else ([], c :: rest)

/-- The text starts like a date or like a time of the day. -/
def startsTime (cs : List Char) : Bool :=
  match (cs.take 5).takeWhile isDigit, (cs.take 5).dropWhile isDigit with
  | [_, _], ':' :: _ => true
  | [_, _, _, _], '-' :: _ => true
  | _, _ => false

/-- Reads a value of one word at the front. -/
def word? (cs : List Char) : Option (Value × List Char) :=
  match cs with
  | 't' :: rest => (dropFront? "rue".toList rest).map (fun rest => (.bool true, rest))
  | 'f' :: rest => (dropFront? "alse".toList rest).map (fun rest => (.bool false, rest))
  | cs =>
    if startsTime cs then
      let (word, rest) := timeWord false cs
      if isTime word then some (.time, rest) else none
    else number? cs

end FlowScript.Toml
