import Criteria.Number.Binary
import Mathlib

/-! # Rounding to the nearest magnitude

Magnitudes grow strictly with their rank, so the intervals that round to a rank are disjoint up
to their ends, and an end belongs to the even one of the two ranks beside it
(`RoundsTo.unique`). The rank that a ratio is rounded to is therefore the only one whose interval
holds the ratio (`rankOfRatio_eq`), whatever way the ratio was found.
-/

set_option autoImplicit false

namespace Criteria.Number

/-! ## Whole numbers -/

/-- The rounded number is at most half a step away. -/
theorem roundHalfEven_near {num den : Nat} (hden : 0 < den) :
    2 * (roundHalfEven num den * den) ≤ 2 * num + den ∧
      2 * num ≤ 2 * (roundHalfEven num den * den) + den := by
  have hdiv : den * (num / den) + num % den = num := Nat.div_add_mod num den
  have hmod : num % den < den := Nat.mod_lt num hden
  have hmul : den * (num / den) = num / den * den := Nat.mul_comm _ _
  have hup : (num / den + 1) * den = num / den * den + den := Nat.succ_mul _ _
  unfold roundHalfEven
  dsimp only
  split
  · omega
  · split
    · omega
    -- Half way between two numbers either of them will do.
    · rcases Nat.mod_two_eq_zero_or_one (num / den) with h | h
      · rw [h, Nat.add_zero]; omega
      · rw [h]; omega

/-- At the same distance from two whole numbers the even one is taken. -/
theorem roundHalfEven_tie {num den : Nat} (hden : 0 < den)
    (h : 2 * (roundHalfEven num den * den) = 2 * num + den ∨
      2 * num = 2 * (roundHalfEven num den * den) + den) :
    roundHalfEven num den % 2 = 0 := by
  have hdiv : den * (num / den) + num % den = num := Nat.div_add_mod num den
  have hmod : num % den < den := Nat.mod_lt num hden
  have hmul : den * (num / den) = num / den * den := Nat.mul_comm _ _
  have hup : (num / den + 1) * den = num / den * den + den := Nat.succ_mul _ _
  unfold roundHalfEven at h ⊢
  dsimp only at h ⊢
  split at h
  · omega
  · split at h
    · omega
    · rw [if_neg (by assumption), if_neg (by assumption)]
      omega

theorem le_roundHalfEven {low num den : Nat} (hden : 0 < den) (h : low * den ≤ num) :
    low ≤ roundHalfEven num den := by
  have hlow : low ≤ num / den := (Nat.le_div_iff_mul_le hden).2 h
  unfold roundHalfEven
  dsimp only
  split
  · exact hlow
  · split <;> omega

theorem roundHalfEven_le {high num den : Nat} (hden : 0 < den) (h : num < high * den) :
    roundHalfEven num den ≤ high := by
  have hhigh : num / den < high := (Nat.div_lt_iff_lt_mul hden).2 h
  unfold roundHalfEven
  dsimp only
  split
  · omega
  · split <;> omega

namespace Format

variable (f : Format)

/-! ## Magnitudes -/

theorem binade_pos : 0 < f.binade := Nat.two_pow_pos _

/-- The magnitudes of one binade, both ends included, and those below the first binade. -/
theorem units_add {d r : Nat} (hr : r ≤ 2 * f.binade) (h : d = 0 ∨ f.binade ≤ r) :
    f.units (d * f.binade + r) = r * 2 ^ d := by
  have hB := f.binade_pos
  have hmul : (d + 1) * f.binade = d * f.binade + f.binade := Nat.succ_mul _ _
  unfold units
  by_cases hlow : r < f.binade
  · obtain rfl : d = 0 := by omega
    rw [if_pos (by omega)]
    simp
  · rw [if_neg (by omega)]
    by_cases hmid : r < 2 * f.binade
    · have hsplit : d * f.binade + r = (r - f.binade) + (d + 1) * f.binade := by omega
      rw [hsplit, Nat.add_mul_mod_self_right, Nat.add_mul_div_right _ _ hB,
        Nat.mod_eq_of_lt (by omega), Nat.div_eq_of_lt (by omega)]
      congr 1
      · omega
      · simp
    · obtain rfl : r = 2 * f.binade := by omega
      have hsplit : d * f.binade + 2 * f.binade = (d + 2) * f.binade := by ring
      have hexp : d + 2 - 1 = d + 1 := by omega
      rw [hsplit, Nat.mul_mod_left, Nat.mul_div_cancel _ hB, hexp, Nat.pow_succ]
      ring

/-- Every rank lies in a binade or below the first one. -/
theorem exists_binade (rank : Nat) :
    ∃ d r, rank = d * f.binade + r ∧ r < 2 * f.binade ∧ (d = 0 ∨ f.binade ≤ r) := by
  have hB := f.binade_pos
  by_cases h : rank < f.binade
  · exact ⟨0, rank, by simp, by omega, Or.inl rfl⟩
  · have hdiv : f.binade * (rank / f.binade) + rank % f.binade = rank :=
      Nat.div_add_mod rank f.binade
    have hmod : rank % f.binade < f.binade := Nat.mod_lt _ hB
    have hpos : 0 < rank / f.binade := Nat.div_pos (by omega) hB
    refine ⟨rank / f.binade - 1, f.binade + rank % f.binade, ?_, by omega, Or.inr (by omega)⟩
    have hmul : (rank / f.binade - 1 + 1) * f.binade
        = (rank / f.binade - 1) * f.binade + f.binade := Nat.succ_mul _ _
    rw [Nat.sub_add_cancel hpos, Nat.mul_comm] at hmul
    omega

theorem units_lt_succ (rank : Nat) : f.units rank < f.units (rank + 1) := by
  obtain ⟨d, r, rfl, hr, h⟩ := f.exists_binade rank
  rw [Nat.add_assoc, f.units_add (by omega) h, f.units_add (by omega) (by omega)]
  exact Nat.mul_lt_mul_of_pos_right (Nat.lt_succ_self r) (Nat.two_pow_pos d)

theorem units_strictMono : StrictMono f.units := strictMono_nat_of_lt_succ f.units_lt_succ

@[simp] theorem units_zero : f.units 0 = 0 := by
  have h := f.units_add (d := 0) (r := 0) (Nat.zero_le _) (Or.inl rfl)
  simpa using h

theorem units_pos {rank : Nat} (h : 0 < rank) : 0 < f.units rank := by
  have := f.units_strictMono h
  omega

end Format

/-! ## Ratios -/

namespace Format

variable (f : Format)

/-- The ratio `num / den` lies in the interval that rounds to the rank: between the midpoints to
the magnitudes on either side, which belong to it when the rank is even. -/
structure RoundsTo (rank num den : Nat) : Prop where
  low : (f.units (rank - 1) + f.units rank) * den ≤ 2 * (num * 2 ^ f.subunit)
  high : 2 * (num * 2 ^ f.subunit) ≤ (f.units rank + f.units (rank + 1)) * den
  tie : (f.units (rank - 1) + f.units rank) * den = 2 * (num * 2 ^ f.subunit) ∨
    2 * (num * 2 ^ f.subunit) = (f.units rank + f.units (rank + 1)) * den → rank % 2 = 0

variable {f}

/-- Of two ranks whose intervals hold a ratio the smaller is not the smaller after all: the
ratio would be the midpoint between neighbours, and both would be even. -/
theorem RoundsTo.not_lt {rank rank' num den : Nat} (hden : 0 < den)
    (h : f.RoundsTo rank num den) (h' : f.RoundsTo rank' num den) : ¬ rank < rank' := by
  intro hlt
  have hmono := f.units_strictMono.monotone
  have h₁ : f.units rank ≤ f.units (rank' - 1) := hmono (by omega)
  have h₂ : f.units (rank + 1) ≤ f.units rank' := hmono (by omega)
  have hsum : (f.units rank + f.units (rank + 1)) * den
      ≤ (f.units (rank' - 1) + f.units rank') * den := Nat.mul_le_mul_right den (by omega)
  have hhigh := h.high
  have hlow := h'.low
  have heven : rank % 2 = 0 := h.tie (Or.inr (by omega))
  have heven' : rank' % 2 = 0 := h'.tie (Or.inl (by omega))
  -- Two even ranks are no neighbours, so a magnitude lies between the two intervals.
  have hnext : rank' ≠ rank + 1 := by omega
  have hstrict : f.units (rank + 1) < f.units rank' := f.units_strictMono (by omega)
  have hsum' : (f.units rank + f.units (rank + 1)) * den
      < (f.units (rank' - 1) + f.units rank') * den :=
    Nat.mul_lt_mul_of_pos_right (by omega) hden
  omega

theorem RoundsTo.unique {rank rank' num den : Nat} (hden : 0 < den)
    (h : f.RoundsTo rank num den) (h' : f.RoundsTo rank' num den) : rank = rank' := by
  have h₁ := h.not_lt hden h'
  have h₂ := h'.not_lt hden h
  omega

variable (f)

/-- The rank of the magnitude nearest to `num / den`, were there no end to the binades. -/
def nearestRank (num den : Nat) : Nat :=
  let scaled := num * 2 ^ f.subunit
  let doublings := Nat.log2 (scaled / den) + 1 - f.precision
  doublings * f.binade + roundHalfEven scaled (den * 2 ^ doublings)

theorem rankOfRatio_eq_min (num den : Nat) :
    f.rankOfRatio num den = min (f.nearestRank num den) f.infinityRank := rfl

theorem two_mul_binade (hp : 0 < f.precision) : 2 * f.binade = 2 ^ f.precision := by
  unfold binade
  rw [← Nat.pow_succ']
  congr 1
  omega

/-- After the doublings that `rankOfRatio` undoes, a ratio lies in a binade, or below the first
one if there was nothing to undo. -/
theorem doublings_bounds (hp : 0 < f.precision) {scaled den d : Nat} (hden : 0 < den)
    (hd : d = Nat.log2 (scaled / den) + 1 - f.precision) :
    scaled < 2 * f.binade * (den * 2 ^ d) ∧ (d = 0 ∨ f.binade * (den * 2 ^ d) ≤ scaled) := by
  have hlt : scaled / den < 2 ^ (Nat.log2 (scaled / den) + 1) := Nat.lt_log2_self
  constructor
  · have hle : 2 ^ (Nat.log2 (scaled / den) + 1) ≤ 2 ^ (f.precision + d) :=
      Nat.pow_le_pow_right (by decide) (by omega)
    have h := (Nat.div_lt_iff_lt_mul hden).1 (Nat.lt_of_lt_of_le hlt hle)
    calc scaled < 2 ^ (f.precision + d) * den := h
      _ = 2 ^ f.precision * (den * 2 ^ d) := by rw [Nat.pow_add]; ring
      _ = 2 * f.binade * (den * 2 ^ d) := by rw [f.two_mul_binade hp]
  · by_cases h0 : d = 0
    · exact Or.inl h0
    · right
      have hne : scaled / den ≠ 0 := by
        intro hz
        rw [hz] at hd
        simp at hd
        omega
      have hself : 2 ^ Nat.log2 (scaled / den) ≤ scaled / den := Nat.log2_self_le hne
      have hexp : Nat.log2 (scaled / den) = f.precision - 1 + d := by omega
      rw [hexp] at hself
      calc f.binade * (den * 2 ^ d) = 2 ^ (f.precision - 1 + d) * den := by
            rw [Nat.pow_add]; unfold binade; ring
        _ ≤ scaled := (Nat.le_div_iff_mul_le hden).1 hself

end Format

namespace Format

variable (f : Format)

theorem binade_even (hp : 2 ≤ f.precision) : f.binade % 2 = 0 := by
  have hexp : f.precision - 1 = f.precision - 2 + 1 := by omega
  unfold binade
  rw [hexp, Nat.pow_succ]
  omega

/-- Inside a binade the magnitudes lie `2 ^ d` apart. -/
theorem units_succ {d r : Nat} (hr : r < 2 * f.binade) (h : d = 0 ∨ f.binade ≤ r) :
    f.units (d * f.binade + r + 1) = f.units (d * f.binade + r) + 2 ^ d := by
  rw [Nat.add_assoc, f.units_add (by omega) (by omega), f.units_add (by omega) h]
  ring

variable {f}

/-- A ratio that is `r` to the nearest multiple of `2 ^ d` units does not lie below the midpoint
to the next magnitude below. That magnitude is nearer at the lower end of a binade, but the
ratio then lies in the binade. -/
theorem nearest_low {scaled den d r : Nat} (hden : 0 < den) (hr : r ≤ 2 * f.binade)
    (hbinade : d = 0 ∨ f.binade ≤ r) (hlower : d = 0 ∨ f.binade * (den * 2 ^ d) ≤ scaled)
    (hlow : 2 * (r * (den * 2 ^ d)) ≤ 2 * scaled + den * 2 ^ d) :
    (f.units (d * f.binade + r - 1) + f.units (d * f.binade + r)) * den ≤ 2 * scaled ∧
      ((f.units (d * f.binade + r - 1) + f.units (d * f.binade + r)) * den = 2 * scaled →
        2 * (r * (den * 2 ^ d)) = 2 * scaled + den * 2 ^ d ∨ d * f.binade + r = 0) := by
  have hunits : f.units (d * f.binade + r) * den = r * (den * 2 ^ d) := by
    rw [f.units_add hr hbinade]; ring
  by_cases hzero : d * f.binade + r = 0
  · rw [hzero]; simp
  -- Inside the binade the magnitude below is one step of `2 ^ d` away.
  by_cases hinside : d = 0 ∨ f.binade < r
  · have hpos : r ≠ 0 := by
      rintro rfl
      rcases hinside with rfl | h
      · simp at hzero
      · omega
    have hstep := f.units_succ (d := d) (r := r - 1) (by omega) (by omega)
    have hpred : d * f.binade + (r - 1) + 1 = d * f.binade + r := by omega
    have hpred' : d * f.binade + (r - 1) = d * f.binade + r - 1 := by omega
    rw [hpred, hpred'] at hstep
    have hbelow : f.units (d * f.binade + r - 1) * den + den * 2 ^ d = r * (den * 2 ^ d) := by
      rw [← hunits, hstep]; ring
    rw [Nat.add_mul]
    omega
  · have hrB : r = f.binade := by omega
    have hBpos := f.binade_pos
    have hlt : f.units (d * f.binade + r - 1) < f.units (d * f.binade + r) :=
      f.units_strictMono (by omega)
    have hlt' := Nat.mul_lt_mul_of_pos_right hlt hden
    have hS : r * (den * 2 ^ d) ≤ scaled := by
      rw [hrB]
      exact hlower.resolve_left (fun h => hinside (Or.inl h))
    rw [Nat.add_mul]
    omega

/-- Nor does it lie above the midpoint to the next magnitude above. -/
theorem nearest_high {scaled den d r : Nat} (hden : 0 < den) (hr : r ≤ 2 * f.binade)
    (hbinade : d = 0 ∨ f.binade ≤ r) (hupper : scaled < 2 * f.binade * (den * 2 ^ d))
    (hhigh : 2 * scaled ≤ 2 * (r * (den * 2 ^ d)) + den * 2 ^ d) :
    2 * scaled ≤ (f.units (d * f.binade + r) + f.units (d * f.binade + r + 1)) * den ∧
      (2 * scaled = (f.units (d * f.binade + r) + f.units (d * f.binade + r + 1)) * den →
        2 * scaled = 2 * (r * (den * 2 ^ d)) + den * 2 ^ d) := by
  have hunits : f.units (d * f.binade + r) * den = r * (den * 2 ^ d) := by
    rw [f.units_add hr hbinade]; ring
  by_cases hinside : r < 2 * f.binade
  · have habove : f.units (d * f.binade + r + 1) * den = r * (den * 2 ^ d) + den * 2 ^ d := by
      rw [f.units_succ hinside hbinade, ← hunits]; ring
    rw [Nat.add_mul]
    omega
  · have hrB : r = 2 * f.binade := by omega
    have hlt := Nat.mul_lt_mul_of_pos_right (f.units_lt_succ (d * f.binade + r)) hden
    rw [← hrB] at hupper
    rw [Nat.add_mul]
    omega

/-- The interval of the nearest rank holds the ratio. -/
theorem roundsTo_nearestRank (hp : 2 ≤ f.precision) (num : Nat) {den : Nat} (hden : 0 < den) :
    f.RoundsTo (f.nearestRank num den) num den := by
  unfold nearestRank
  dsimp only
  set scaled := num * 2 ^ f.subunit
  set d := Nat.log2 (scaled / den) + 1 - f.precision with hd
  have hpos : 0 < den * 2 ^ d := Nat.mul_pos hden (Nat.two_pow_pos d)
  obtain ⟨hupper, hlower⟩ := f.doublings_bounds (by omega) hden hd
  set r := roundHalfEven scaled (den * 2 ^ d)
  have hr : r ≤ 2 * f.binade := roundHalfEven_le hpos hupper
  have hbinade : d = 0 ∨ f.binade ≤ r := hlower.imp id (le_roundHalfEven hpos)
  have hnear : 2 * (r * (den * 2 ^ d)) ≤ 2 * scaled + den * 2 ^ d ∧
      2 * scaled ≤ 2 * (r * (den * 2 ^ d)) + den * 2 ^ d := roundHalfEven_near hpos
  obtain ⟨hbelow, habove⟩ := hnear
  obtain ⟨hlow, hlow'⟩ := nearest_low hden hr hbinade hlower hbelow
  obtain ⟨hhigh, hhigh'⟩ := nearest_high hden hr hbinade hupper habove
  refine ⟨hlow, hhigh, ?_⟩
  intro h
  -- A tie was broken towards an even multiple, and a binade has an even number of magnitudes.
  have heven : d * f.binade % 2 = 0 := by rw [Nat.mul_mod, f.binade_even hp]; simp
  by_cases hzero : d * f.binade + r = 0
  · rw [hzero]
  · have hr2 : r % 2 = 0 := by
      refine roundHalfEven_tie hpos (h.imp (fun h => ?_) hhigh')
      exact (hlow' h).resolve_right hzero
    omega

/-- A ratio in the interval of a rank is rounded to it. -/
theorem rankOfRatio_eq (hp : 2 ≤ f.precision) {rank num den : Nat} (hden : 0 < den)
    (h : f.RoundsTo rank num den) (hrank : rank ≤ f.infinityRank) :
    f.rankOfRatio num den = rank := by
  rw [rankOfRatio_eq_min, (roundsTo_nearestRank hp num hden).unique hden h]
  exact Nat.min_eq_left hrank

/-- A ratio that is at most a magnitude is not rounded past it. -/
theorem rankOfRatio_le (hp : 2 ≤ f.precision) {rank num den : Nat} (hden : 0 < den)
    (h : num * 2 ^ f.subunit ≤ f.units rank * den) : f.rankOfRatio num den ≤ rank := by
  rw [rankOfRatio_eq_min]
  refine le_trans (Nat.min_le_left _ _) ?_
  -- Past the magnitude, the lower end of the interval lies above it, and the ratio does not.
  by_contra hgt
  have hlow := (roundsTo_nearestRank hp num hden).low
  set R := f.nearestRank num den
  have h₁ : f.units rank ≤ f.units (R - 1) := f.units_strictMono.monotone (by omega)
  have h₂ : f.units rank < f.units R := f.units_strictMono (by omega)
  have hsum : (f.units rank + f.units rank) * den < (f.units (R - 1) + f.units R) * den :=
    Nat.mul_lt_mul_of_pos_right (by omega) hden
  rw [Nat.add_mul] at hsum
  omega

/-- A ratio that is at least a magnitude is not rounded past it either. -/
theorem le_rankOfRatio (hp : 2 ≤ f.precision) {rank num den : Nat} (hden : 0 < den)
    (hrank : rank ≤ f.infinityRank) (h : f.units rank * den ≤ num * 2 ^ f.subunit) :
    rank ≤ f.rankOfRatio num den := by
  rw [rankOfRatio_eq_min]
  refine le_min ?_ hrank
  by_contra hlt
  have hhigh := (roundsTo_nearestRank hp num hden).high
  set R := f.nearestRank num den
  have h₁ : f.units (R + 1) ≤ f.units rank := f.units_strictMono.monotone (by omega)
  have h₂ : f.units R < f.units rank := f.units_strictMono (by omega)
  have hsum : (f.units R + f.units (R + 1)) * den < (f.units rank + f.units rank) * den :=
    Nat.mul_lt_mul_of_pos_right (by omega) hden
  rw [Nat.add_mul (f.units rank)] at hsum
  omega

/-- A ratio of at least one is rounded to a magnitude of at least one, if the format has one. -/
theorem two_pow_subunit_le (hp : 2 ≤ f.precision) (hlow : f.precision ≤ f.subunit + 1)
    (hhigh : f.subunit < f.binades + f.precision) {num den : Nat} (hden : 0 < den)
    (h : den ≤ num) : 2 ^ f.subunit ≤ f.units (f.rankOfRatio num den) := by
  set d := f.subunit - (f.precision - 1) with hd
  -- One is the first magnitude of its binade.
  have hone : f.units (d * f.binade + f.binade) = 2 ^ f.subunit := by
    rw [f.units_add (by omega) (Or.inr le_rfl)]
    unfold binade
    rw [← Nat.pow_add]
    congr 1
    omega
  have hrank : d * f.binade + f.binade ≤ f.infinityRank := by
    rw [← Nat.succ_mul]
    exact Nat.mul_le_mul_right _ (by omega)
  have hle : d * f.binade + f.binade ≤ f.rankOfRatio num den := by
    refine le_rankOfRatio hp hden hrank ?_
    rw [hone, Nat.mul_comm]
    exact Nat.mul_le_mul_right _ h
  rw [← hone]
  exact f.units_strictMono.monotone hle

/-- The largest finite magnitude. -/
theorem units_last (hb : 0 < f.binades) :
    f.units (f.infinityRank - 1) = (2 * f.binade - 1) * 2 ^ (f.binades - 1) := by
  have hB := f.binade_pos
  have hsplit : f.infinityRank - 1 = (f.binades - 1) * f.binade + (2 * f.binade - 1) := by
    obtain ⟨k, hk⟩ : ∃ k, f.binades = k + 1 := ⟨f.binades - 1, by omega⟩
    have hmul : (k + 1 + 1) * f.binade = k * f.binade + 2 * f.binade := by ring
    unfold infinityRank
    rw [hk, hmul]
    simp only [Nat.add_sub_cancel]
    omega
  rw [hsplit, f.units_add (by omega) (by omega)]

end Format

namespace Binary

variable {f : Format}

/-- What is at most the largest finite magnitude stays finite. -/
theorem isFinite_ofRatio (hp : 2 ≤ f.precision) (negative : Bool) {num den : Nat}
    (hden : 0 < den) (h : num * 2 ^ f.subunit ≤ f.units (f.infinityRank - 1) * den) :
    (ofRatio f negative num den).isFinite = true := by
  have hle := Format.rankOfRatio_le hp hden h
  have hpos : 0 < f.infinityRank := Nat.mul_pos (Nat.succ_pos _) f.binade_pos
  simp only [ofRatio, isFinite, decide_eq_true_eq]
  omega

/-- Integers far below the range of the format are finite numbers of it. -/
theorem isFinite_ofInt (hp : 2 ≤ f.precision) {n : Int} {bits : Nat}
    (hn : n.natAbs ≤ 2 ^ bits) (hbits : bits + f.subunit < f.binades) :
    (ofInt f n).isFinite = true := by
  refine isFinite_ofRatio hp _ Nat.one_pos ?_
  have hB := f.binade_pos
  rw [Format.units_last (by omega), Nat.mul_one]
  calc n.natAbs * 2 ^ f.subunit ≤ 2 ^ bits * 2 ^ f.subunit := Nat.mul_le_mul_right _ hn
    _ = 2 ^ (bits + f.subunit) := (Nat.pow_add 2 bits f.subunit).symm
    _ ≤ 2 ^ (f.binades - 1) := Nat.pow_le_pow_right (by decide) (by omega)
    _ ≤ (2 * f.binade - 1) * 2 ^ (f.binades - 1) := Nat.le_mul_of_pos_left _ (by omega)

/-- A finite number divided by one of at least one unit stays finite. -/
theorem isFinite_div (hp : 2 ≤ f.precision) {x : Binary f} (hx : x.isFinite = true)
    (negative : Bool) {rank : Fin (f.infinityRank + 1)} (hrank : 2 ^ f.subunit ≤ f.units rank) :
    (x.div (.signed negative rank)).isFinite = true := by
  cases x with
  | nan => cases hx
  | signed sign magnitude =>
    have hlt : magnitude.val < f.infinityRank := of_decide_eq_true hx
    have hle : f.units magnitude ≤ f.units (f.infinityRank - 1) :=
      f.units_strictMono.monotone (by omega)
    have hpos : 0 < f.units rank := Nat.lt_of_lt_of_le (Nat.two_pow_pos _) hrank
    show (ofRatio f (sign != negative) (f.units magnitude) (f.units rank)).isFinite = true
    exact isFinite_ofRatio hp _ hpos (Nat.mul_le_mul hle hrank)

@[simp] theorem isFinite_neg (x : Binary f) : x.neg.isFinite = x.isFinite := by
  cases x <;> rfl

end Binary

end Criteria.Number
