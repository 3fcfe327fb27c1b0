import Criteria.Number.Numeral
import Criteria.Text.Basic

/-! # Dates

Days of the Gregorian calendar, extended backwards without end. A date is read from a year, a
month and a day with hyphens between them, and is written with four digits for the year where
they suffice and a sign in front of the year where they do not.
-/

set_option autoImplicit false

namespace Criteria.Calendar

open Criteria.Text Criteria.Number

/-- Whether the year has a twenty-ninth of February. -/
def isLeapYear (year : Int) : Bool := year % 4 = 0 && (year % 100 != 0 || year % 400 = 0)

/-- The number of days of a month, counted from January as 1. -/
def daysInMonth (year : Int) (month : Nat) : Nat :=
  match month with
  | 2 => if isLeapYear year then 29 else 28
  | 4 | 6 | 9 | 11 => 30
  | _ => 31

/-- A day of the calendar between the years -262143 and 262142. -/
structure Date where
  year : Int
  month : Nat
  day : Nat
  valid : (-262143 ≤ year ∧ year ≤ 262142) ∧ (1 ≤ month ∧ month ≤ 12) ∧
    1 ≤ day ∧ day ≤ daysInMonth year month
  deriving DecidableEq

namespace Date

/-- The date with the given parts, if there is one. -/
def ofParts? (year : Int) (month day : Nat) : Option Date :=
  if h : (-262143 ≤ year ∧ year ≤ 262142) ∧ (1 ≤ month ∧ month ≤ 12) ∧
      1 ≤ day ∧ day ≤ daysInMonth year month
  then some ⟨year, month, day, h⟩ else none

/-- A number of at most `width` digits, with white space in front of it skipped. -/
def number? (width : Nat) (cs : List Char) : Option (Nat × List Char) :=
  let trimmed := cs.dropWhile isWhiteSpace
  let digits := (trimmed.take width).takeWhile Char.isDigit
  if digits.isEmpty then none else some (natOfDigits digits, trimmed.drop digits.length)

/-- A year: at most four digits, or a sign and any number of digits. -/
def year? (cs : List Char) : Option (Int × List Char) :=
  match cs.dropWhile isWhiteSpace with
  | '-' :: r =>
    let (digits, rest) := spanDigits r
    if digits.isEmpty then none else some (-(natOfDigits digits : Int), rest)
  | '+' :: r =>
    let (digits, rest) := spanDigits r
    if digits.isEmpty then none else some ((natOfDigits digits : Int), rest)
  | trimmed => (number? 4 trimmed).map fun (n, rest) => ((n : Int), rest)

/-- The date that a text writes. -/
def read? (text : String) : Option Date := do
  let (year, '-' :: afterYear) ← year? text.toList | none
  let (month, '-' :: afterMonth) ← number? 2 afterYear | none
  let (day, []) ← number? 2 afterMonth | none
  ofParts? year month day

end Date

/-- A year with four digits, or with a sign and at least four digits outside 0 to 9999. -/
def yearText (year : Int) : List Char :=
  if 0 ≤ year ∧ year ≤ 9999 then padded 4 year.toNat
  else (if year < 0 then '-' else '+') :: padded 4 year.natAbs

/-- Year, month and day with hyphens between them. -/
def Date.chars (d : Date) : List Char :=
  yearText d.year ++ '-' :: padded 2 d.month ++ '-' :: padded 2 d.day

/-- The text of a date. -/
def Date.text (d : Date) : String := String.ofList d.chars

end Criteria.Calendar
