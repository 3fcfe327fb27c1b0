import Criteria.Proofs.Number.DecimalText

/-! # Rounding twice

A decimal that is read in a wide format and then narrowed is rounded twice. If the wide format has
the midpoints between the magnitudes of the narrow one (`Format.Bisects`), the first rounding
does not carry a ratio past a midpoint, but it can carry it onto one. Narrowing then breaks a tie
that the decimal itself was not, so that the number comes back unless it lies beside the midpoint
and is odd (`Numeral.convert_toBinary_iff`).
-/

set_option autoImplicit false

namespace Criteria.Number

namespace Format

variable {f g : Format}

/-! ## Midpoints -/

/-- Every small multiple of a power of two is a magnitude of the format, or lies behind its last
one. -/
theorem exists_units_eq (g : Format) {m : Nat} (hm : m ≤ 2 * g.binade) (e : Nat) :
    ∃ rank, g.units rank = m * 2 ^ e := by
  -- Fewer units than a binade has are doubled until they fill one, or the exponent is used up.
  induction e generalizing m with
  | zero => exact ⟨0 * g.binade + m, g.units_add hm (Or.inl rfl)⟩
  | succ e ih =>
    by_cases hfull : g.binade ≤ m
    · exact ⟨(e + 1) * g.binade + m, g.units_add hm (Or.inr hfull)⟩
    · obtain ⟨rank, hrank⟩ := ih (m := 2 * m) (by omega)
      refine ⟨rank, ?_⟩
      rw [hrank, Nat.pow_succ]
      ring

/-- Neighbouring magnitudes have an odd number of halves of their distance between them and zero. -/
theorem exists_midpoint (f : Format) {rank : Nat} (hrank : rank < f.infinityRank) :
    ∃ m d, f.units rank + f.units (rank + 1) = m * 2 ^ d ∧ m ≤ 4 * f.binade ∧ d ≤ f.binades := by
  obtain ⟨d, r, rfl, hr, h⟩ := f.exists_binade rank
  refine ⟨2 * r + 1, d, ?_, by omega, ?_⟩
  · rw [f.units_succ hr h, f.units_add (by omega) h]
    ring
  · by_contra hd
    have hmul : (f.binades + 1) * f.binade ≤ d * f.binade := Nat.mul_le_mul_right _ (by omega)
    unfold infinityRank at hrank
    omega

/-- The midpoints between the magnitudes of `f` are finite magnitudes of `g`. -/
def Bisects (g f : Format) : Prop :=
  ∀ rank < f.infinityRank, ∃ r < g.infinityRank,
    2 * (g.units r * 2 ^ f.subunit) = (f.units rank + f.units (rank + 1)) * 2 ^ g.subunit

/-- The rank behind the last finite magnitude is that of the next power of two. -/
theorem units_infinityRank (hb : 0 < g.binades) :
    g.units g.infinityRank = 2 * g.binade * 2 ^ (g.binades - 1) := by
  have hB := g.binade_pos
  obtain ⟨k, hk⟩ : ∃ k, g.binades = k + 1 := ⟨g.binades - 1, by omega⟩
  have hsplit : g.infinityRank = k * g.binade + 2 * g.binade := by
    unfold infinityRank
    rw [hk]
    ring
  rw [hsplit, hk, g.units_add le_rfl (Or.inr (by omega)), Nat.add_sub_cancel]

/-- A format with one more bit, a smaller unit and a larger range has the midpoints. -/
theorem bisects_of_wider (hprecision : f.precision < g.precision) (hsubunit : f.subunit < g.subunit)
    (hp : 0 < f.precision) (hb : 0 < g.binades)
    (hrange : f.precision + f.binades + g.subunit + 1 < g.precision + g.binades + f.subunit) :
    g.Bisects f := by
  intro rank hrank
  obtain ⟨m, d, hsum, hm, hd⟩ := f.exists_midpoint hrank
  have hf := f.two_mul_binade hp
  have hg := g.two_mul_binade (by omega)
  have hbinade : 2 ^ (f.precision + 1) ≤ 2 ^ g.precision :=
    Nat.pow_le_pow_right (by decide) hprecision
  rw [Nat.pow_succ] at hbinade
  obtain ⟨k, hk⟩ : ∃ k, g.subunit = f.subunit + 1 + k := ⟨g.subunit - f.subunit - 1, by omega⟩
  obtain ⟨r, hr⟩ := g.exists_units_eq (m := m) (by omega) (d + k)
  refine ⟨r, ?_, ?_⟩
  · refine g.units_strictMono.lt_iff_lt.1 ?_
    have hpos : 0 < 2 ^ (d + k) := Nat.two_pow_pos _
    calc g.units r = m * 2 ^ (d + k) := hr
      _ ≤ 2 ^ (f.precision + 1) * 2 ^ (d + k) :=
        Nat.mul_le_mul_right _ (by rw [Nat.pow_succ]; omega)
      _ = 2 ^ (f.precision + 1 + (d + k)) := (Nat.pow_add _ _ _).symm
      _ < 2 ^ (g.precision + (g.binades - 1)) := Nat.pow_lt_pow_right (by decide) (by omega)
      _ = 2 ^ g.precision * 2 ^ (g.binades - 1) := Nat.pow_add _ _ _
      _ = g.units g.infinityRank := by rw [units_infinityRank hb, hg]
  · rw [hr, hsum, hk]
    simp only [Nat.pow_add]
    ring

theorem double_bisects_single : double.Bisects single :=
  bisects_of_wider (by decide) (by decide) (by decide) (by decide) (by decide)

/-! ## Two roundings -/

/-- The ratio lies half way between the magnitude of the rank and one beside it. -/
def Midway (f : Format) (rank num den : Nat) : Prop :=
  (f.units (rank - 1) + f.units rank) * den = 2 * (num * 2 ^ f.subunit) ∨
    2 * (num * 2 ^ f.subunit) = (f.units rank + f.units (rank + 1)) * den

instance (f : Format) (rank num den : Nat) : Decidable (f.Midway rank num den) :=
  inferInstanceAs (Decidable (_ ∨ _))

/-- A ratio that is rounded to a finite magnitude lies in its interval. -/
theorem roundsTo_rankOfRatio (hp : 2 ≤ f.precision) {num den : Nat} (hden : 0 < den)
    (h : f.rankOfRatio num den < f.infinityRank) :
    f.RoundsTo (f.rankOfRatio num den) num den := by
  have hmin := f.rankOfRatio_eq_min num den
  have hnearest : f.rankOfRatio num den = f.nearestRank num den := by omega
  rw [hnearest]
  exact roundsTo_nearestRank hp num hden

/-- A ratio up to the upper midpoint of a magnitude is not carried past it by the first rounding. -/
theorem Bisects.round_le (hg : g.Bisects f) (hp : 2 ≤ g.precision) {rank num den : Nat}
    (hden : 0 < den) (hrank : rank < f.infinityRank)
    (h : 2 * (num * 2 ^ f.subunit) ≤ (f.units rank + f.units (rank + 1)) * den) :
    g.rankOfRatio num den < g.infinityRank ∧
      2 * (g.units (g.rankOfRatio num den) * 2 ^ f.subunit)
        ≤ (f.units rank + f.units (rank + 1)) * 2 ^ g.subunit := by
  obtain ⟨r, hr, hmid⟩ := hg rank hrank
  have hle : g.rankOfRatio num den ≤ r := by
    refine rankOfRatio_le hp hden ?_
    have hpos : 0 < 2 * 2 ^ f.subunit := Nat.mul_pos (by decide) (Nat.two_pow_pos _)
    refine Nat.le_of_mul_le_mul_left ?_ hpos
    calc 2 * 2 ^ f.subunit * (num * 2 ^ g.subunit)
        = 2 * (num * 2 ^ f.subunit) * 2 ^ g.subunit := by ring
      _ ≤ (f.units rank + f.units (rank + 1)) * den * 2 ^ g.subunit := Nat.mul_le_mul_right _ h
      _ = (f.units rank + f.units (rank + 1)) * 2 ^ g.subunit * den := by ring
      _ = 2 * 2 ^ f.subunit * (g.units r * den) := by rw [← hmid]; ring
  refine ⟨lt_of_le_of_lt hle hr, ?_⟩
  rw [← hmid]
  exact Nat.mul_le_mul_left _ (Nat.mul_le_mul_right _ (g.units_strictMono.monotone hle))

/-- Nor is a ratio from the lower midpoint on. -/
theorem Bisects.le_round (hg : g.Bisects f) (hp : 2 ≤ g.precision) {rank num den : Nat}
    (hden : 0 < den) (hrank : rank < f.infinityRank)
    (h : (f.units (rank - 1) + f.units rank) * den ≤ 2 * (num * 2 ^ f.subunit)) :
    (f.units (rank - 1) + f.units rank) * 2 ^ g.subunit
      ≤ 2 * (g.units (g.rankOfRatio num den) * 2 ^ f.subunit) := by
  by_cases hzero : rank = 0
  · rw [hzero]
    simp
  obtain ⟨r, hr, hmid⟩ := hg (rank - 1) (by omega)
  rw [Nat.sub_add_cancel (by omega)] at hmid
  have hle : r ≤ g.rankOfRatio num den := by
    refine le_rankOfRatio hp hden hr.le ?_
    have hpos : 0 < 2 * 2 ^ f.subunit := Nat.mul_pos (by decide) (Nat.two_pow_pos _)
    refine Nat.le_of_mul_le_mul_left ?_ hpos
    calc 2 * 2 ^ f.subunit * (g.units r * den)
        = (f.units (rank - 1) + f.units rank) * 2 ^ g.subunit * den := by rw [← hmid]; ring
      _ = (f.units (rank - 1) + f.units rank) * den * 2 ^ g.subunit := by ring
      _ ≤ 2 * (num * 2 ^ f.subunit) * 2 ^ g.subunit := Nat.mul_le_mul_right _ h
      _ = 2 * 2 ^ f.subunit * (num * 2 ^ g.subunit) := by ring
  rw [← hmid]
  exact Nat.mul_le_mul_left _ (Nat.mul_le_mul_right _ (g.units_strictMono.monotone hle))

/-- Rounding a ratio first in a format that has the midpoints changes the result only for an odd
rank, and only if the first rounding ends on a midpoint beside it. -/
theorem rankOfRatio_twice_iff (hg : g.Bisects f) (hf : 2 ≤ f.precision) (hp : 2 ≤ g.precision)
    {rank num den : Nat} (hden : 0 < den) (hrank : rank < f.infinityRank)
    (h : f.RoundsTo rank num den) :
    f.rankOfRatio (g.units (g.rankOfRatio num den)) (2 ^ g.subunit) = rank ↔
      ¬(f.Midway rank (g.units (g.rankOfRatio num den)) (2 ^ g.subunit) ∧ rank % 2 = 1) := by
  have hpos : 0 < 2 ^ g.subunit := Nat.two_pow_pos _
  obtain ⟨-, hhigh⟩ := hg.round_le hp hden hrank h.high
  have hlow := hg.le_round hp hden hrank h.low
  constructor
  · rintro heq ⟨hmidway, hodd⟩
    have hrounds := roundsTo_rankOfRatio hf hpos (heq ▸ hrank)
    rw [heq] at hrounds
    have heven := hrounds.tie hmidway
    omega
  · intro hnot
    refine rankOfRatio_eq hf hpos ⟨hlow, hhigh, ?_⟩ hrank.le
    intro hmidway
    by_contra hodd
    exact hnot ⟨hmidway, by omega⟩

end Format

namespace Binary

variable {f g : Format}

/-- Whether the last bit of the significand is set. -/
def isOdd : Binary f → Bool
  | nan => false
  | signed _ rank => rank.val % 2 = 1

/-- The number lies half way between `x` and a number beside it. -/
def IsMidway (y : Binary g) (x : Binary f) : Prop :=
  match y, x with
  | signed _ r, signed _ rank => f.Midway rank (g.units r) (2 ^ g.subunit)
  | _, _ => False

instance (y : Binary g) (x : Binary f) : Decidable (y.IsMidway x) :=
  match y, x with
  | signed _ r, signed _ rank =>
    inferInstanceAs (Decidable (f.Midway rank (g.units r) (2 ^ g.subunit)))
  | nan, _ => isFalse id
  | signed _ _, nan => isFalse id

/-- A ratio that is rounded to a finite number lies in the interval of its rank. -/
theorem ofRatio_eq_signed (hp : 2 ≤ f.precision) {negative sign : Bool} {num den : Nat}
    (hden : 0 < den) {rank : Fin (f.infinityRank + 1)} (hrank : rank.val < f.infinityRank)
    (h : ofRatio f negative num den = .signed sign rank) :
    negative = sign ∧ f.RoundsTo rank num den := by
  simp only [ofRatio, signed.injEq] at h
  obtain ⟨hsign, rfl⟩ := h
  exact ⟨hsign, Format.roundsTo_rankOfRatio hp hden hrank⟩

end Binary

/-- A decimal fraction that is the number `x` of one format is finite in a format that has the
midpoints, and narrowed it is `x` again, unless it was carried onto a midpoint beside `x` and `x`
is odd. -/
theorem Numeral.convert_toBinary_iff {f g : Format} (hg : g.Bisects f) (hf : 2 ≤ f.precision)
    (hp : 2 ≤ g.precision) {negative : Bool} {whole places : List Char} (hplaces : places ≠ [])
    {x : Binary f} (hx : x.isFinite = true)
    (h : toBinary f ⟨negative, whole, some places, none⟩ = x) :
    (toBinary g ⟨negative, whole, some places, none⟩).isFinite = true ∧
      ((toBinary g ⟨negative, whole, some places, none⟩).convert f = x ↔
        ¬((toBinary g ⟨negative, whole, some places, none⟩).IsMidway x ∧ x.isOdd = true)) := by
  have hlength : 0 < places.length := List.length_pos_iff.2 hplaces
  have hden : 0 < 10 ^ places.length := Nat.pos_of_ne_zero (by positivity)
  simp only [toBinary, Option.getD_some, Option.getD_none, Int.zero_sub,
    Binary.ofDecimal_eq_ofRatio hf negative _ hlength,
    Binary.ofDecimal_eq_ofRatio hp negative _ hlength] at h ⊢
  generalize natOfDigits (whole ++ places) = num at h ⊢
  cases x with
  | nan => cases hx
  | signed sign rank =>
    have hrank : rank.val < f.infinityRank := of_decide_eq_true hx
    obtain ⟨rfl, hrounds⟩ := Binary.ofRatio_eq_signed hf hden hrank h
    obtain ⟨hfinite, -⟩ := hg.round_le hp hden hrank hrounds.high
    have htwice := Format.rankOfRatio_twice_iff hg hf hp hden hrank hrounds
    refine ⟨decide_eq_true hfinite, ?_⟩
    have hconvert : (Binary.ofRatio g negative num (10 ^ places.length)).convert f
        = Binary.ofRatio f negative (g.units (g.rankOfRatio num (10 ^ places.length)))
            (2 ^ g.subunit) := if_pos hfinite
    rw [hconvert]
    simp only [Binary.ofRatio, Binary.signed.injEq, true_and, Fin.ext_iff, Binary.IsMidway,
      Binary.isOdd, decide_eq_true_eq]
    exact htwice

end Criteria.Number
