import Criteria.Number.Binary

/-! # Shortest decimals

The shortest decimal that reads back as a given magnitude. A decimal reads back when it lies in
the interval that rounds to the magnitude, whose ends belong to it exactly when the rank is
even. Grids of decimals are tried from coarse to fine. On each only the two neighbours of the
magnitude matter; on the first grid with a neighbour in the interval the nearer one is taken.
-/

set_option autoImplicit false

namespace Criteria.Number

-- Powers are those of the core library, whatever else is loaded beside it.
attribute [local instance (2000)] instPowNat

/-- Where a magnitude goes that lies halfway between two decimals of the same length. -/
inductive Tie where
  | up
  | even
  deriving DecidableEq

/-- The decimal `digits * 10 ^ exponent`. -/
structure Decimal where
  digits : Nat
  exponent : Int
  deriving DecidableEq

/-- The decimal without trailing zeros in its digits. -/
def Decimal.strip (digits : Nat) (exponent : Int) : Decimal :=
  if h : digits ≠ 0 ∧ digits % 10 = 0 then strip (digits / 10) (exponent + 1)
  else ⟨digits, exponent⟩
termination_by digits
decreasing_by omega

/-- The interval that rounds to one magnitude, and the magnitude itself, in units of
`10 ^ (-places)`. -/
structure Interval where
  low : Nat
  value : Nat
  high : Nat
  closed : Bool
  places : Nat

namespace Interval

/-- Half the smallest unit is `5 ^ places * 10 ^ (-places)` for `places` one above the
format's `subunit`, so magnitudes and the midpoints between them are whole. -/
def ofRank (f : Format) (rank : Nat) : Interval :=
  let places := f.subunit + 1
  { low := (f.units (rank - 1) + f.units rank) * 5 ^ places
    value := 2 * f.units rank * 5 ^ places
    high := (f.units rank + f.units (rank + 1)) * 5 ^ places
    closed := rank % 2 = 0
    places }

/-- Whether `n` rounds to the magnitude. -/
def contains (i : Interval) (n : Nat) : Bool :=
  (i.low < n && n < i.high) || (i.closed && (n = i.low || n = i.high))

/-- The nearest multiple of `step` next to the magnitude that lies in the interval, counted in
steps. -/
def neighbour? (i : Interval) (tie : Tie) (step : Nat) : Option Nat :=
  let below := i.value / step
  let above := below + 1
  match i.contains (below * step), i.contains (above * step) with
  | false, false => none
  | true, false => some below
  | false, true => some above
  | true, true =>
    let excess := 2 * (i.value % step)
    if excess < step then some below
    else if step < excess then some above
    else match tie with
      | .up => some above
      | .even => some (below + below % 2)

/-- The first hit among the grids with steps `10 ^ n`, `10 ^ (n - 1)`, …, 1. -/
def coarsest (i : Interval) (tie : Tie) : Nat → Decimal
  | 0 => ⟨i.value, -(i.places : Int)⟩
  | n + 1 =>
    match i.neighbour? tie (10 ^ n) with
    | some digits => .strip digits ((n : Int) - i.places)
    | none => i.coarsest tie n

end Interval

/-- The shortest decimal that reads back as the magnitude of the rank. -/
def Format.shortest (f : Format) (tie : Tie) (rank : Nat) : Decimal :=
  let i := Interval.ofRank f rank
  i.coarsest tie (Nat.toDigits 10 i.value).length

end Criteria.Number
