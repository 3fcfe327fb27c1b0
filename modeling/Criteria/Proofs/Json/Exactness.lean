import Criteria.Json.Reader
import Criteria.Proofs.Json.Bounded
import Criteria.Proofs.Number.DecimalText
import Criteria.Proofs.Number.Narrowing

/-! # Numbers that are read exactly

The number of a numeral is scaled by a power of ten, and both are binary numbers, so the result is
rounded more than once. Where the digits and the power of ten have no more bits than a number, only
the last rounding changes anything: such a numeral is read as the number nearest to it
(`real?_of_isShort`).
-/

set_option autoImplicit false

namespace Criteria.Number

-- Powers are those of the core library, whatever else is loaded beside it.
attribute [local instance (2000)] instPowNat

/-! ## Ratios -/

namespace Format

variable {f : Format}

/-- Rounding depends on the value of a ratio alone. -/
theorem rankOfRatio_congr (hp : 2 ≤ f.precision) {num den num' den' : Nat} (hden : 0 < den)
    (hden' : 0 < den') (heq : num * den' = num' * den) :
    f.rankOfRatio num den = f.rankOfRatio num' den' := by
  have hrounds := (roundsTo_nearestRank hp num hden).congr hden hden' heq
  rw [rankOfRatio_eq_min, rankOfRatio_eq_min,
    hrounds.unique hden' (roundsTo_nearestRank hp num' hden')]

/-- A ratio that is a magnitude is rounded to it. -/
theorem rankOfRatio_of_units (hp : 2 ≤ f.precision) {rank num den : Nat} (hden : 0 < den)
    (hrank : rank ≤ f.infinityRank) (h : f.units rank * den = num * 2 ^ f.subunit) :
    f.rankOfRatio num den = rank :=
  Nat.le_antisymm (rankOfRatio_le hp hden h.ge) (le_rankOfRatio hp hden hrank h.le)

/-- A whole number is a magnitude if its bits, but for zeros at the end, fit the precision. -/
theorem units_rankOfRatio_whole (hp : 2 ≤ f.precision) {m e : Nat} (hm : m ≤ 2 * f.binade)
    (he : e + f.subunit < f.binades) :
    f.units (f.rankOfRatio (m * 2 ^ e) 1) = m * 2 ^ e * 2 ^ f.subunit := by
  have hshift : m * 2 ^ e * 2 ^ f.subunit = m * 2 ^ (e + f.subunit) := by
    rw [Nat.mul_assoc, Nat.pow_add]
  obtain ⟨rank, hrank⟩ := f.exists_units_eq hm (e + f.subunit)
  have hle : f.units rank ≤ f.units f.infinityRank := by
    rw [hrank, units_infinityRank (by omega)]
    exact Nat.mul_le_mul hm (Nat.pow_le_pow_right (by decide) (by omega))
  have hexact : f.units rank * 1 = m * 2 ^ e * 2 ^ f.subunit := by
    rw [hrank, hshift, Nat.mul_one]
  rw [rankOfRatio_of_units hp Nat.one_pos (f.units_strictMono.le_iff_le.1 hle) hexact, hrank,
    hshift]

end Format

namespace Binary

variable {f : Format}

theorem ofRatio_congr (hp : 2 ≤ f.precision) (negative : Bool) {num den num' den' : Nat}
    (hden : 0 < den) (hden' : 0 < den') (heq : num * den' = num' * den) :
    ofRatio f negative num den = ofRatio f negative num' den' := by
  unfold ofRatio
  congr 1
  exact Fin.ext (Format.rankOfRatio_congr hp hden hden' heq)

/-- The product of whole numbers that the format has is rounded once. -/
theorem mul_ofRatio {a b : Nat}
    (hp : 2 ≤ f.precision) (ha : f.units (f.rankOfRatio a 1) = a * 2 ^ f.subunit)
    (hb : f.units (f.rankOfRatio b 1) = b * 2 ^ f.subunit) :
    (ofRatio f false a 1).mul (ofRatio f false b 1) = ofRatio f false (a * b) 1 := by
  show ofRatio f (false != false) (f.units (f.rankOfRatio a 1) * f.units (f.rankOfRatio b 1))
    (2 ^ (2 * f.subunit)) = _
  refine ofRatio_congr hp _ (Nat.two_pow_pos _) Nat.one_pos ?_
  rw [ha, hb, Nat.two_mul, Nat.pow_add]
  ring

/-- The quotient of whole numbers that the format has is rounded once. -/
theorem div_ofRatio {a b : Nat} (hp : 2 ≤ f.precision)
    (ha : f.units (f.rankOfRatio a 1) = a * 2 ^ f.subunit)
    (hb : f.units (f.rankOfRatio b 1) = b * 2 ^ f.subunit) (hpos : 0 < b) :
    (ofRatio f false a 1).div (ofRatio f false b 1) = ofRatio f false a b := by
  show ofRatio f (false != false) (f.units (f.rankOfRatio a 1)) (f.units (f.rankOfRatio b 1)) = _
  rw [ha, hb]
  refine ofRatio_congr hp _ (Nat.mul_pos hpos (Nat.two_pow_pos _)) hpos ?_
  ring

/-- The sign of a decimal is that of the number. -/
theorem neg_ofDecimal (digits : Nat) (exponent : Int) :
    (ofDecimal f false digits exponent).neg = ofDecimal f true digits exponent := by
  unfold ofDecimal
  split
  · rfl
  split
  · split <;> rfl
  · split <;> rfl

theorem ofInt_zero (hp : 2 ≤ f.precision) : ofInt f 0 = zero f false :=
  ofRatio_eq_zero hp false Nat.one_pos (by simp)

/-- Zero keeps its sign in other formats. -/
theorem convert_zero {g : Format} (hp : 2 ≤ g.precision) (hf : 0 < f.infinityRank)
    (negative : Bool) : (zero f negative).convert g = zero g negative := by
  have hrank : (⟨0, Nat.succ_pos _⟩ : Fin (f.infinityRank + 1)).val < f.infinityRank := hf
  rw [zero, convert, if_pos hrank]
  exact ofRatio_eq_zero hp negative (Nat.two_pow_pos _) (by simp)

end Binary

end Criteria.Number

namespace Criteria.Json

open Number

-- Powers are those of the core library, whatever else is loaded beside it.
attribute [local instance (2000)] instPowNat

/-! ## Scaling -/

/-- A whole number that has no more bits than a number of 64 bits. -/
theorem units_significand {s : Nat} (hs : s ≤ 2 ^ 53) :
    Format.double.units (Format.double.rankOfRatio s 1) = s * 2 ^ Format.double.subunit := by
  have hexact := Format.units_rankOfRatio_whole (f := .double) (m := s) (e := 0) (by decide)
    (by simpa [Format.binade, Format.double] using hs) (by decide)
  rwa [Nat.pow_zero, Nat.mul_one] at hexact

/-- The powers of ten that are numbers of 64 bits. -/
theorem units_powerOfTen {n : Nat} (hn : n ≤ 22) :
    Format.double.units (Format.double.rankOfRatio (10 ^ n) 1) =
      10 ^ n * 2 ^ Format.double.subunit := by
  have hsplit : 10 ^ n = 5 ^ n * 2 ^ n := by
    rw [← Nat.mul_pow]
  have hfive : 5 ^ n ≤ 2 * Format.double.binade :=
    Nat.le_trans (Nat.pow_le_pow_right (by decide) hn) (by decide)
  have hbound : n + Format.double.subunit < Format.double.binades := by
    simp only [Format.double]
    omega
  rw [hsplit]
  exact Format.units_rankOfRatio_whole (by decide) hfive hbound

/-- With few digits and a small power of ten, scaling rounds once, to the nearest number. -/
theorem scale?_eq {s : Nat} (hs : s ≤ 2 ^ 53) {exponent : Int} (hexponent : exponent.natAbs ≤ 22) :
    scale? (.ofRatio .double false s 1) exponent = some (.ofDecimal .double false s exponent) := by
  have hs' := units_significand hs
  have hpower := units_powerOfTen (n := exponent.natAbs) hexponent
  have hpos : 0 < 10 ^ exponent.natAbs := Nat.pow_pos (by decide)
  unfold scale?
  split
  · rename_i hneg
    have hplaces : (-exponent).toNat = exponent.natAbs := by omega
    have hdecimal : exponent = -(exponent.natAbs : Int) := by omega
    rw [scaleDown, if_pos (by omega), hplaces, powerOfTen,
      Binary.div_ofRatio (by decide) hs' hpower hpos]
    conv_rhs => rw [hdecimal]
    rw [Binary.ofDecimal_eq_ofRatio (by decide) false s (by omega)]
  · rename_i hneg
    have htoNat : exponent.toNat = exponent.natAbs := by omega
    have hbinades : ¬Format.double.binades < exponent.natAbs := by
      simp only [Format.double]
      omega
    have hproduct : s * 10 ^ exponent.natAbs ≤ 2 ^ 127 :=
      Nat.le_trans (Nat.mul_le_mul hs (Nat.pow_le_pow_right (by decide) hexponent)) (by decide)
    have hfinite : (Binary.ofInt .double (s * 10 ^ exponent.natAbs : Nat)).isFinite = true :=
      Binary.isFinite_ofInt (by decide) (by rwa [Int.natAbs_natCast]) (by decide)
    have hsame : Binary.ofInt .double (s * 10 ^ exponent.natAbs : Nat) =
        .ofRatio .double false (s * 10 ^ exponent.natAbs) 1 := by
      rw [Binary.ofInt, Int.natAbs_natCast]
      congr 1
    rw [if_pos (by omega)]
    dsimp only
    rw [htoNat, powerOfTen, Binary.mul_ofRatio (by decide) hs' hpower, ← hsame,
      if_pos hfinite, hsame]
    congr 1
    unfold Binary.ofDecimal
    split
    · rename_i hzero
      rw [hzero, Nat.zero_mul]
      exact Binary.ofRatio_eq_zero (by decide) false Nat.one_pos (by simp)
    · rw [if_pos (by omega), htoNat, if_neg hbinades]

/-! ## Numerals -/

/-- The number that digits behind a number make up with it. -/
def extend (n : Nat) (digits : List Char) : Nat :=
  digits.foldl (fun n c => 10 * n + (c.toNat - '0'.toNat)) n

theorem le_extend (n : Nat) (digits : List Char) : n ≤ extend n digits := by
  induction digits generalizing n with
  | nil => exact Nat.le_refl n
  | cons c digits ih =>
    have hstep : n ≤ 10 * n + (c.toNat - '0'.toNat) := by omega
    exact Nat.le_trans hstep (ih _)

/-- All digits are gathered if the number they make up fits. -/
theorem gather_of_lt {n : Nat} {digits : List Char} (h : extend n digits < 2 ^ 64) :
    gather n digits = (extend n digits, 0) := by
  induction digits generalizing n with
  | nil => rfl
  | cons c digits ih =>
    have hnext : 10 * n + (c.toNat - '0'.toNat) < 2 ^ 64 :=
      Nat.lt_of_le_of_lt (le_extend _ digits) h
    rw [gather, if_pos hnext, ih h]
    rfl

/-- The digits of the numeral make up a number of at most 53 bits, and the power of ten that they
stand for is at most the 22nd, up or down. -/
structure IsShort (n : Numeral) : Prop where
  digits : natOfDigits (n.whole ++ n.fraction.getD []) ≤ 2 ^ 53
  exponent : (n.exponent.getD 0 - (n.fraction.getD []).length).natAbs ≤ 22

instance (n : Numeral) : Decidable (IsShort n) :=
  decidable_of_iff (natOfDigits (n.whole ++ n.fraction.getD []) ≤ 2 ^ 53 ∧
      (n.exponent.getD 0 - (n.fraction.getD []).length).natAbs ≤ 22)
    ⟨fun h => ⟨h.1, h.2⟩, fun h => ⟨h.digits, h.exponent⟩⟩

/-- A short numeral is read as the number nearest to it. -/
theorem real?_of_isShort {n : Numeral} (h : IsShort n) : real? n = some (n.toBinary .double) := by
  obtain ⟨hdigits, hexponent⟩ := h
  have happend : natOfDigits (n.whole ++ n.fraction.getD []) =
      extend (extend 0 n.whole) (n.fraction.getD []) := List.foldl_append
  have hall : extend (extend 0 n.whole) (n.fraction.getD []) < 2 ^ 64 := by
    rw [← happend]
    exact Nat.lt_of_le_of_lt hdigits (by decide)
  have hwhole : extend 0 n.whole < 2 ^ 64 := Nat.lt_of_le_of_lt (le_extend _ _) hall
  have hscale := scale?_eq hdigits hexponent
  rw [happend] at hscale
  rw [real?, gather_of_lt hwhole]
  dsimp only
  rw [gather_of_lt hall]
  dsimp only [Nat.sub_zero]
  rw [Nat.cast_zero, Int.add_zero, hscale, Numeral.toBinary, happend]
  cases n.negative with
  | false => rfl
  | true => exact congrArg some (Binary.neg_ofDecimal _ _)

end Criteria.Json
