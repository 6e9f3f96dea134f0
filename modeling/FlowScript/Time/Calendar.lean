import FlowScript.Text.Hex

/-!
# Moments and spans of time

A moment is a count of seconds and nanoseconds since the start of 1970 in universal time, together
with the offset of the clock that showed it. Dates follow the Gregorian calendar without gaps. A span
of time is written in hours, minutes and seconds, or in one smaller unit when it is shorter than a
second.
-/

namespace FlowScript

open Text

/-- A date of the Gregorian calendar. -/
structure Date where
  year : Int
  month : Nat
  day : Nat
  deriving DecidableEq

namespace Date

/-- Days from the start of 1970 to a date. Years are counted from March, so that a leap day ends a
year. -/
def toDays (d : Date) : Int :=
  let y : Int := if d.month ≤ 2 then d.year - 1 else d.year
  let era : Int := y.fdiv 400
  let yearOfEra : Int := y - era * 400
  let monthFromMarch : Int := if 2 < d.month then d.month - 3 else d.month + 9
  let dayOfYear : Int := (153 * monthFromMarch + 2) / 5 + d.day - 1
  let dayOfEra : Int := yearOfEra * 365 + yearOfEra / 4 - yearOfEra / 100 + dayOfYear
  era * 146097 + dayOfEra - 719468

/-- The date that lies the given number of days after the start of 1970. -/
def ofDays (days : Int) : Date :=
  let z := days + 719468
  let era : Int := z.fdiv 146097
  let dayOfEra : Int := z - era * 146097
  let yearOfEra : Int :=
    (dayOfEra - dayOfEra / 1460 + dayOfEra / 36524 - dayOfEra / 146096) / 365
  let dayOfYear : Int := dayOfEra - (365 * yearOfEra + yearOfEra / 4 - yearOfEra / 100)
  let fromMarch : Int := (5 * dayOfYear + 2) / 153
  let day : Int := dayOfYear - (153 * fromMarch + 2) / 5 + 1
  let month : Int := if fromMarch < 10 then fromMarch + 3 else fromMarch - 9
  let year : Int := yearOfEra + era * 400 + (if month ≤ 2 then 1 else 0)
  ⟨year, month.toNat, day.toNat⟩

/-- A year with 366 days. -/
def isLeap (year : Int) : Bool :=
  year % 4 == 0 && (year % 100 != 0 || year % 400 == 0)

/-- The number of days of a month. -/
def monthLength (year : Int) (month : Nat) : Nat :=
  if month = 2 then if isLeap year then 29 else 28
  else if month = 4 ∨ month = 6 ∨ month = 9 ∨ month = 11 then 30
  else 31

/-- The date exists. -/
def isValid (d : Date) : Bool :=
  1 ≤ d.month && d.month ≤ 12 && 1 ≤ d.day && d.day ≤ monthLength d.year d.month

end Date

/-- A moment, and the offset in seconds of the clock that showed it. -/
structure Moment where
  seconds : Int
  nanos : Nat := 0
  offset : Int := 0

namespace Moment

/-- The same moment on a clock that shows universal time. -/
def utc (m : Moment) : Moment :=
  { m with offset := 0 }

/-- A year with at least four digits. -/
def yearChars (year : Int) : List Char :=
  let digits := decimal year.natAbs
  let digits := List.replicate (4 - digits.length) '0' ++ digits
  if year < 0 then '-' :: digits else digits

/-- The time of day on the clock of the moment. -/
def timeChars (m : Moment) : List Char :=
  let second := ((m.seconds + m.offset).emod 86400).toNat
  padded 2 (second / 3600) ++ ':' :: padded 2 (second / 60 % 60) ++ ':' :: padded 2 (second % 60)

/-- The date on the clock of the moment. -/
def date (m : Moment) : Date :=
  Date.ofDays ((m.seconds + m.offset).fdiv 86400)

/-- The offset in hours and minutes, `Z` for universal time. -/
def zoneChars (offset : Int) : List Char :=
  if offset = 0 then ['Z']
  else
    let minutes := offset.natAbs / 60
    (if offset < 0 then '-' else '+') :: padded 2 (minutes / 60) ++ ':' :: padded 2 (minutes % 60)

/-- The nanoseconds after a point, without zeros at the end; nothing when there are none. -/
def fractionChars (nanos : Nat) : List Char :=
  if nanos = 0 then [] else '.' :: ((padded 9 nanos).reverse.dropWhile (· == '0')).reverse

/-- Date and time with the given text for the fraction of the second. -/
def stampWith (m : Moment) (fraction : List Char) : List Char :=
  let d := m.date
  yearChars d.year ++ '-' :: padded 2 d.month ++ '-' :: padded 2 d.day ++ 'T' :: m.timeChars ++
    fraction ++ zoneChars m.offset

/-- Date and time in whole seconds. -/
def stamp (m : Moment) : String :=
  String.ofList (m.stampWith [])

/-- Date and time with the fraction of the second. -/
def fullStamp (m : Moment) : String :=
  String.ofList (m.stampWith (fractionChars m.nanos))

/-- Reads exactly `n` digits. -/
def digits? (n : Nat) (cs : List Char) : Option (Nat × List Char) :=
  let front := cs.take n
  if front.length = n && front.all isDigit then some (digitsValue front, cs.drop n) else none

/-- Reads one given character. -/
def expect (c : Char) : List Char → Option (List Char)
  | d :: rest => if c == d then some rest else none
  | [] => none

/-- Reads an offset: `Z`, or a sign with hours and minutes. -/
def offset? : List Char → Option Int
  | ['Z'] => some 0
  | sign :: rest => do
    let factor : Int ← if sign == '+' then some 1 else if sign == '-' then some (-1) else none
    let (hours, rest) ← digits? 2 rest
    let rest ← expect ':' rest
    let (minutes, rest) ← digits? 2 rest
    if rest.isEmpty then some (factor * (hours * 3600 + minutes * 60 : Nat)) else none
  | [] => none

/-- The nanoseconds of a fraction of a second given by its digits. -/
def nanosOf (digits : List Char) : Nat :=
  digitsValue ((digits ++ List.replicate 9 '0').take 9)

/-- Reads a date and a time with an offset and an optional fraction. -/
def ofStamp? (s : String) : Option Moment := do
  let (year, cs) ← digits? 4 s.toList
  let cs ← expect '-' cs
  let (month, cs) ← digits? 2 cs
  let cs ← expect '-' cs
  let (day, cs) ← digits? 2 cs
  let cs ← expect 'T' cs
  let (hour, cs) ← digits? 2 cs
  let cs ← expect ':' cs
  let (minute, cs) ← digits? 2 cs
  let cs ← expect ':' cs
  let (second, cs) ← digits? 2 cs
  let (nanos, cs) :=
    match cs with
    | '.' :: rest => (nanosOf (rest.takeWhile isDigit), rest.dropWhile isDigit)
    | cs => (0, cs)
  let offset ← offset? cs
  let d : Date := ⟨year, month, day⟩
  if d.isValid && hour < 24 && minute < 60 && second < 60 then
    let local_ : Int := d.toDays * 86400 + (hour * 3600 + minute * 60 + second : Nat)
    some ⟨local_ - offset, nanos, offset⟩
  else none

end Moment

/-! ## Spans of time -/

namespace Duration

/-- A whole number of units followed by a fraction of so many places, without the zeros at its end. -/
def withFraction (places n : Nat) : List Char :=
  let scale := Nat.pow 10 places
  let part := ((padded places (n % scale)).reverse.dropWhile (· == '0')).reverse
  decimal (n / scale) ++ if part.isEmpty then [] else '.' :: part

/-- The text of a span without its sign. -/
def magnitude (nanos : Nat) : List Char :=
  if nanos == 0 then ['0', 's']
  else if nanos < 1000 then decimal nanos ++ ['n', 's']
  else if nanos < 1000000 then withFraction 3 nanos ++ ['µ', 's']
  else if nanos < 1000000000 then withFraction 6 nanos ++ ['m', 's']
  else
    let minutes := nanos / 60000000000
    let seconds := withFraction 9 (nanos % 60000000000) ++ ['s']
    if minutes == 0 then seconds
    else if minutes < 60 then decimal minutes ++ 'm' :: seconds
    else decimal (minutes / 60) ++ 'h' :: decimal (minutes % 60) ++ 'm' :: seconds

/-- The text of a span of nanoseconds. -/
def text (nanos : Int) : String :=
  String.ofList (if nanos < 0 then '-' :: magnitude nanos.natAbs else magnitude nanos.natAbs)

end Duration

end FlowScript
