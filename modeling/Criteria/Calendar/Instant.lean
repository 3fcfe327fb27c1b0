import Criteria.Calendar.Date

/-! # Instants

Points in time with nanoseconds, counted in universal time. A text gives a local date, a local
time and the offset from universal time; a second numbered 60 is kept as a leap second, whose
nanoseconds run beyond the first billion of the second before it. An instant is written in
universal time with no, three, six or nine places, as few as hold the fraction.
-/

set_option autoImplicit false

namespace Criteria.Calendar

open Criteria.Text Criteria.Number

-- Powers are those of the core library, whatever else is loaded beside it.
attribute [local instance (2000)] instPowNat

/-- Seconds since the start of 1970 in universal time, and nanoseconds; those of a leap second
start at a billion. -/
structure Instant where
  seconds : Int
  nanos : Nat
  deriving DecidableEq

/-- The number of days from the start of 1970 to a date. Years are counted from March, so that
the leap day is the last of its year. -/
def dayNumber (year : Int) (month day : Nat) : Int :=
  let y := if month ≤ 2 then year - 1 else year
  let yearOfEra := y % 400
  let dayOfYear : Int := (153 * ((month + 9) % 12) + 2) / 5 + day - 1
  let dayOfEra := yearOfEra * 365 + yearOfEra / 4 - yearOfEra / 100 + dayOfYear
  y / 400 * 146097 + dayOfEra - 719468

/-- The year, month and day of a day number. -/
def civil (dayNumber : Int) : Int × Nat × Nat :=
  let z := dayNumber + 719468
  let dayOfEra := z % 146097
  let yearOfEra := (dayOfEra - dayOfEra / 1460 + dayOfEra / 36524 - dayOfEra / 146096) / 365
  let dayOfYear := dayOfEra - (365 * yearOfEra + yearOfEra / 4 - yearOfEra / 100)
  let shifted := (5 * dayOfYear + 2) / 153
  let day := dayOfYear - (153 * shifted + 2) / 5 + 1
  let month := if shifted < 10 then shifted + 3 else shifted - 9
  let year := yearOfEra + z / 146097 * 400
  (if month ≤ 2 then year + 1 else year, month.toNat, day.toNat)

namespace Instant

/-- Exactly `width` digits, and what follows them. -/
def digits? (width : Nat) (cs : List Char) : Option (Nat × List Char) :=
  let digits := cs.take width
  if digits.length = width && digits.all Char.isDigit then
    some (natOfDigits digits, cs.drop width)
  else none

/-- The nanoseconds of a fraction; places past the ninth are dropped. -/
def nanosOf (digits : List Char) : Nat :=
  let kept := digits.take 9
  natOfDigits kept * 10 ^ (9 - kept.length)

/-- A point and digits, or nothing, which is zero. -/
def fraction? : List Char → Option (Nat × List Char)
  | '.' :: r =>
    let (digits, rest) := spanDigits r
    if digits.isEmpty then none else some (nanosOf digits, rest)
  | cs => some (0, cs)

/-- The hours and minutes of an offset, in seconds. -/
def offsetSeconds? (cs : List Char) : Option (Int × List Char) := do
  let (hours, ':' :: afterHours) ← digits? 2 cs | none
  let (minutes, rest) ← digits? 2 afterHours
  if hours ≤ 23 ∧ minutes ≤ 59 then some (((hours * 60 + minutes) * 60 : Nat), rest) else none

/-- An offset from universal time: `Z`, or a sign, hours and minutes. The sign may be the
mathematical minus. -/
def offset? : List Char → Option (Int × List Char)
  | 'Z' :: r => some (0, r)
  | 'z' :: r => some (0, r)
  | '+' :: r => offsetSeconds? r
  | '-' :: r => (offsetSeconds? r).map fun (s, rest) => (-s, rest)
  | '\u2212' :: r => (offsetSeconds? r).map fun (s, rest) => (-s, rest)
  | _ => none

/-- The instant that a text writes. -/
def read? (text : String) : Option Instant := do
  let (year, '-' :: afterYear) ← digits? 4 text.toList | none
  let (month, '-' :: afterMonth) ← digits? 2 afterYear | none
  let (day, mark :: afterDay) ← digits? 2 afterMonth | none
  let (hour, ':' :: afterHour) ← digits? 2 afterDay | none
  let (minute, ':' :: afterMinute) ← digits? 2 afterHour | none
  let (second, afterSecond) ← digits? 2 afterMinute
  let (nanos, afterFraction) ← fraction? afterSecond
  let (offset, []) ← offset? afterFraction | none
  let _ ← Date.ofParts? year month day
  if (mark = 'T' ∨ mark = 't' ∨ mark = ' ') ∧ hour ≤ 23 ∧ minute ≤ 59 ∧ second ≤ 60 then
    let secondOfDay : Int := (hour * 60 + minute) * 60 + min second 59
    some {
      seconds := dayNumber year month day * 86400 + secondOfDay - offset
      nanos := if second = 60 then nanos + 1000000000 else nanos }
  else none

/-- The places of a fraction: none, three, six or nine, as few as hold it. -/
def fractionChars (nanos : Nat) : List Char :=
  if nanos = 0 then []
  else if nanos % 1000000 = 0 then '.' :: padded 3 (nanos / 1000000)
  else if nanos % 1000 = 0 then '.' :: padded 6 (nanos / 1000)
  else '.' :: padded 9 nanos

/-- The date and time in universal time. -/
def chars (t : Instant) : List Char :=
  let (year, month, day) := civil (t.seconds / 86400)
  let second := (t.seconds % 86400).toNat
  let leap := t.nanos / 1000000000
  yearText year ++ '-' :: padded 2 month ++ '-' :: padded 2 day ++
    'T' :: padded 2 (second / 3600) ++ ':' :: padded 2 (second / 60 % 60) ++
    ':' :: padded 2 (second % 60 + leap) ++ fractionChars (t.nanos % 1000000000) ++ ['Z']

/-- The text of an instant. -/
def text (t : Instant) : String := String.ofList t.chars

end Instant

end Criteria.Calendar
