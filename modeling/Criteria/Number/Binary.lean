/-! # Binary floating-point numbers

The finite magnitudes of a binary format, from zero upwards, and infinity behind them form one
ascending sequence. A number is a sign and the rank of its magnitude in that sequence, or it is
not a number at all. Every finite magnitude is a whole number of the format's smallest unit, so
all arithmetic is exact arithmetic on natural numbers followed by one rounding to the nearest
magnitude, a tie going to the even rank.
-/

set_option autoImplicit false

namespace Criteria.Number

-- Powers are those of the core library, whatever else is loaded beside it.
attribute [local instance (2000)] instPowNat

/-- A binary format: significands have `precision` bits, the smallest unit is `2 ^ (-subunit)`,
and above the smallest magnitudes the unit doubles from one binade to the next. -/
structure Format where
  precision : Nat
  subunit : Nat
  binades : Nat
  deriving DecidableEq

namespace Format

/-- Numbers of 32 bits. -/
def single : Format := ⟨24, 149, 254⟩

/-- Numbers of 64 bits. -/
def double : Format := ⟨53, 1074, 2046⟩

variable (f : Format)

/-- The number of magnitudes in one binade. -/
def binade : Nat := 2 ^ (f.precision - 1)

/-- The rank behind the last finite magnitude. -/
def infinityRank : Nat := (f.binades + 1) * f.binade

/-- The magnitude of a rank in multiples of the smallest unit. -/
def units (rank : Nat) : Nat :=
  if rank < f.binade then rank else (f.binade + rank % f.binade) * 2 ^ (rank / f.binade - 1)

end Format

/-- The whole number nearest to `num / den`, a half going to the even neighbour. -/
def roundHalfEven (num den : Nat) : Nat :=
  let low := num / den
  let excess := 2 * (num % den)
  if excess < den then low
  else if den < excess then low + 1
  else low + low % 2

/-- The rank of the magnitude nearest to `num / den`, at most that of infinity. -/
def Format.rankOfRatio (f : Format) (num den : Nat) : Nat :=
  let scaled := num * 2 ^ f.subunit
  let doublings := Nat.log2 (scaled / den) + 1 - f.precision
  min (doublings * f.binade + roundHalfEven scaled (den * 2 ^ doublings)) f.infinityRank

/-- A number of the format. -/
inductive Binary (f : Format) where
  | nan
  | signed (negative : Bool) (rank : Fin (f.infinityRank + 1))
  deriving DecidableEq

/-- Numbers of 32 bits. -/
abbrev Single : Type := Binary .single

/-- Numbers of 64 bits. -/
abbrev Double : Type := Binary .double

namespace Binary

variable {f g : Format}

/-- The number nearest to `num / den` with the given sign. -/
def ofRatio (f : Format) (negative : Bool) (num den : Nat) : Binary f :=
  .signed negative ⟨f.rankOfRatio num den, Nat.lt_succ_of_le (Nat.min_le_right _ _)⟩

/-- Zero with the given sign. -/
def zero (f : Format) (negative : Bool) : Binary f := .signed negative ⟨0, Nat.succ_pos _⟩

/-- Infinity with the given sign. -/
def infinity (f : Format) (negative : Bool) : Binary f :=
  .signed negative ⟨f.infinityRank, Nat.lt_succ_self _⟩

/-- Whether the number is neither infinite nor missing. -/
def isFinite : Binary f → Bool
  | nan => false
  | signed _ rank => rank.val < f.infinityRank

/-- Whether the number is one of the two zeros. -/
def isZero : Binary f → Bool
  | nan => false
  | signed _ rank => rank.val = 0

/-- The number nearest to an integer. -/
def ofInt (f : Format) (n : Int) : Binary f := ofRatio f (n < 0) n.natAbs 1

/-- The number nearest to `digits * 10 ^ exponent`. Exponents far outside the format are
decided by size alone. -/
def ofDecimal (f : Format) (negative : Bool) (digits : Nat) (exponent : Int) : Binary f :=
  if digits = 0 then zero f negative
  else if 0 ≤ exponent then
    if f.binades < exponent.toNat then infinity f negative
    else ofRatio f negative (digits * 10 ^ exponent.toNat) 1
  else if Nat.log2 digits + f.subunit + 2 < 3 * (-exponent).toNat then zero f negative
  else ofRatio f negative digits (10 ^ (-exponent).toNat)

/-- The nearest number of another format. -/
def convert (g : Format) : Binary f → Binary g
  | nan => nan
  | signed negative rank =>
    if rank.val < f.infinityRank then ofRatio g negative (f.units rank) (2 ^ f.subunit)
    else infinity g negative

/-- The product of finite numbers, rounded to nearest. -/
def mul : Binary f → Binary f → Binary f
  | signed s a, signed t b => ofRatio f (s != t) (f.units a * f.units b) (2 ^ (2 * f.subunit))
  | _, _ => nan

/-- The quotient of finite numbers, the second of them not zero, rounded to nearest. -/
def div : Binary f → Binary f → Binary f
  | signed s a, signed t b => ofRatio f (s != t) (f.units a) (f.units b)
  | _, _ => nan

/-- The number with the opposite sign. -/
def neg : Binary f → Binary f
  | nan => nan
  | signed negative rank => signed (!negative) rank

end Binary

end Criteria.Number
