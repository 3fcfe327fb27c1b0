import Criteria.Proofs.Number.Numeral
import Criteria.Proofs.Number.Shortest
import Criteria.Value

/-! # Decimal text reads back

The text of a finite binary number as a value is a numeral with a fraction, and the number
nearest to that numeral is the number itself (`Binary.exists_numeral`).
-/

set_option autoImplicit false

namespace Criteria.Number

/-! ## Laying out digits -/

/-- What a layout of a decimal has to be: digits around a point that write the same ratio. -/
structure Decimal.LaidOut (d : Decimal) (whole places : List Char) : Prop where
  whole_ne : whole ≠ []
  places_ne : places ≠ []
  digits : ∀ c ∈ whole ++ places, c.isDigit = true
  ratio : ∀ n : Nat, ∀ p : Nat, d.exponent = (n : Int) - p →
    d.digits * 10 ^ n * 10 ^ places.length = natOfDigits (whole ++ places) * 10 ^ p

namespace Decimal

variable (d : Decimal)

theorem digitChars_ne_nil : d.digitChars ≠ [] := Nat.toDigits_ne_nil

theorem isDigit_of_mem_digitChars {c : Char} (h : c ∈ d.digitChars) : c.isDigit = true :=
  isDigit_of_mem_toDigits h

theorem natOfDigits_digitChars : natOfDigits d.digitChars = d.digits := natOfDigits_toDigits _

theorem isDigit_of_mem_zeros {n : Nat} {c : Char} (h : c ∈ List.replicate n '0') :
    c.isDigit = true := by
  rw [List.eq_of_mem_replicate h]
  decide

/-- A whole number gets a zero as its only place. -/
theorem laidOut_whole (h : 0 ≤ d.exponent) :
    d.LaidOut (d.digitChars ++ List.replicate d.exponent.toNat '0') ['0'] where
  whole_ne := by simp [d.digitChars_ne_nil]
  places_ne := by simp
  digits := by
    intro c hc
    simp only [List.mem_append, List.mem_singleton] at hc
    rcases hc with (hc | hc) | rfl
    · exact d.isDigit_of_mem_digitChars hc
    · exact isDigit_of_mem_zeros hc
    · decide
  ratio := by
    intro n p hnp
    have hn : n = d.exponent.toNat + p := by omega
    have hzeros : List.replicate d.exponent.toNat '0' ++ ['0']
        = List.replicate (d.exponent.toNat + 1) '0' := by rw [List.replicate_succ']
    rw [List.append_assoc, hzeros, natOfDigits_append_zeros, natOfDigits_digitChars, hn]
    rw [Nat.pow_add, Nat.pow_succ]
    simp only [List.length_singleton]
    ring

/-- The point falls between the digits. -/
theorem laidOut_inside (h : d.exponent < 0)
    (hlen : (-d.exponent).toNat < d.digitChars.length) :
    d.LaidOut (d.digitChars.take (d.digitChars.length - (-d.exponent).toNat))
      (d.digitChars.drop (d.digitChars.length - (-d.exponent).toNat)) where
  whole_ne := by
    rw [← List.length_pos_iff, List.length_take]
    omega
  places_ne := by
    rw [← List.length_pos_iff, List.length_drop]
    omega
  digits := by
    rw [List.take_append_drop]
    exact fun c => d.isDigit_of_mem_digitChars
  ratio := by
    intro n p hnp
    have hp : p = n + (-d.exponent).toNat := by omega
    have hplaces : d.digitChars.length - (d.digitChars.length - (-d.exponent).toNat)
        = (-d.exponent).toNat := by omega
    rw [List.take_append_drop, natOfDigits_digitChars, List.length_drop, hplaces, hp, Nat.pow_add]
    ring

/-- The point falls in front of the digits. -/
theorem laidOut_below (h : d.exponent < 0)
    (hlen : d.digitChars.length ≤ (-d.exponent).toNat) :
    d.LaidOut ['0']
      (List.replicate ((-d.exponent).toNat - d.digitChars.length) '0' ++ d.digitChars) where
  whole_ne := by simp
  places_ne := by simp [d.digitChars_ne_nil]
  digits := by
    intro c hc
    simp only [List.mem_append, List.mem_singleton] at hc
    rcases hc with rfl | hc | hc
    · decide
    · exact isDigit_of_mem_zeros hc
    · exact d.isDigit_of_mem_digitChars hc
  ratio := by
    intro n p hnp
    have hp : p = n + (-d.exponent).toNat := by omega
    have hzero : natOfDigits (['0'] ++
        (List.replicate ((-d.exponent).toNat - d.digitChars.length) '0' ++ d.digitChars))
          = d.digits := by
      have hcons : ['0'] = List.replicate 1 '0' := rfl
      rw [hcons, natOfDigits_zeros_append, natOfDigits_zeros_append, natOfDigits_digitChars]
    have hlength : (List.replicate ((-d.exponent).toNat - d.digitChars.length) '0'
        ++ d.digitChars).length = (-d.exponent).toNat := by
      rw [List.length_append, List.length_replicate]
      omega
    rw [hzero, hlength, hp, Nat.pow_add]
    ring

end Decimal

/-! ## Numbers -/

namespace Binary

variable {f : Format}

/-- A ratio below half of the smallest magnitude is rounded to zero. -/
theorem ofRatio_eq_zero (hp : 2 ≤ f.precision) (negative : Bool) {num den : Nat} (hden : 0 < den)
    (h : 2 * (num * 2 ^ f.subunit) < den) : ofRatio f negative num den = zero f negative := by
  have hone : 0 < f.units 1 := f.units_pos Nat.one_pos
  have hhigh : den ≤ f.units 1 * den := Nat.le_mul_of_pos_left _ hone
  have hrounds : f.RoundsTo 0 num den :=
    ⟨by simp, by simp only [Format.units_zero, Nat.zero_add]; omega, fun _ => rfl⟩
  unfold zero ofRatio
  congr 1
  exact Fin.ext (Format.rankOfRatio_eq hp hden hrounds (Nat.zero_le _))

/-- A decimal fraction is read as the number nearest to it. That tiny ones are decided by size
alone makes no difference. -/
theorem ofDecimal_eq_ofRatio (hp : 2 ≤ f.precision) (negative : Bool) (digits : Nat) {places : Nat}
    (hplaces : 0 < places) :
    ofDecimal f negative digits (-(places : Int)) = ofRatio f negative digits (10 ^ places) := by
  have hden : 0 < 10 ^ places := Nat.pos_of_ne_zero (by positivity)
  have hneg : (-(-(places : Int))).toNat = places := by omega
  unfold ofDecimal
  rw [if_neg (by omega : ¬ (0 : Int) ≤ -(places : Int)), hneg]
  by_cases hdigits : digits = 0
  · rw [if_pos hdigits, hdigits, ofRatio_eq_zero hp negative hden (by omega)]
  rw [if_neg hdigits]
  by_cases hsmall : Nat.log2 digits + f.subunit + 2 < 3 * places
  · rw [if_pos hsmall]
    refine (ofRatio_eq_zero hp negative hden ?_).symm
    have hlt : digits < 2 ^ (Nat.log2 digits + 1) := Nat.lt_log2_self
    calc 2 * (digits * 2 ^ f.subunit) = digits * 2 ^ (f.subunit + 1) := by
          rw [Nat.pow_succ]; ring
      _ < 2 ^ (Nat.log2 digits + 1) * 2 ^ (f.subunit + 1) :=
          Nat.mul_lt_mul_of_pos_right hlt (Nat.two_pow_pos _)
      _ = 2 ^ (Nat.log2 digits + f.subunit + 2) := by rw [← Nat.pow_add]; congr 1; omega
      _ ≤ 2 ^ (3 * places) := Nat.pow_le_pow_right (by decide) (by omega)
      _ = 8 ^ places := by rw [Nat.pow_mul]
      _ ≤ 10 ^ places := Nat.pow_le_pow_left (by decide) _
  · rw [if_neg hsmall]

/-- A decimal fraction in the interval of a rank is read as the number of that rank. -/
theorem ofDecimal_eq (hp : 2 ≤ f.precision) (negative : Bool) {digits places : Nat}
    {rank : Fin (f.infinityRank + 1)} (hplaces : 0 < places)
    (h : f.RoundsTo rank.val digits (10 ^ places)) :
    ofDecimal f negative digits (-(places : Int)) = .signed negative rank := by
  have hden : 0 < 10 ^ places := Nat.pos_of_ne_zero (by positivity)
  rw [ofDecimal_eq_ofRatio hp negative digits hplaces]
  unfold ofRatio
  congr 1
  exact Fin.ext (Format.rankOfRatio_eq hp hden h (by omega))

/-- Zero is read as itself, however many places it has. -/
theorem ofDecimal_zero (negative : Bool) (exponent : Int) :
    ofDecimal f negative 0 exponent = zero f negative := by
  simp [ofDecimal]

/-- A layout of the shortest decimal of a magnitude is read as that magnitude. -/
theorem ofDecimal_laidOut (hp : 2 ≤ f.precision) (negative : Bool) (tie : Tie)
    {rank : Fin (f.infinityRank + 1)} (hrank : 0 < rank.val) {whole places : List Char}
    (h : (f.shortest tie rank).LaidOut whole places) :
    ofDecimal f negative (natOfDigits (whole ++ places)) (-(places.length : Int))
      = .signed negative rank := by
  obtain ⟨n, hexp, hcontains⟩ := f.shortest_mem tie hrank
  have hrounds := Interval.roundsTo_of_contains hcontains
  have hpos (k : Nat) : 0 < 10 ^ k := Nat.pos_of_ne_zero (by positivity)
  exact ofDecimal_eq hp negative (List.length_pos_iff.2 h.places_ne)
    (hrounds.congr (hpos _) (hpos _) (h.ratio n (f.subunit + 1) hexp))

/-! ## Text -/

/-- Text that has a point is left as it is. -/
theorem withDecimals_point {cs : List Char} (h : '.' ∈ cs) :
    (Value.withDecimals (String.ofList cs)).toList = cs := by
  have hany : cs.any (· == '.') = true := List.any_eq_true.2 ⟨'.', h, by decide⟩
  simp [Value.withDecimals, hany]

/-- Text that ends in a digit and has no point gets one with a zero behind it. -/
theorem withDecimals_digits {cs ds : List Char} (hcs : '.' ∉ cs) (hds : ds ≠ [])
    (hdigits : ∀ c ∈ ds, c.isDigit = true) :
    (Value.withDecimals (String.ofList (cs ++ ds))).toList = cs ++ ds ++ ['.', '0'] := by
  have hlast : ((cs ++ ds).getLast?.any Char.isDigit) = true := by
    rw [List.getLast?_append, List.getLast?_eq_some_getLast hds]
    simpa using hdigits _ (List.getLast_mem hds)
  have hany : (cs ++ ds).any (· == '.') = false := by
    rw [List.any_eq_false]
    intro c hc
    rcases List.mem_append.1 hc with hc | hc
    · have hne : c ≠ '.' := fun h => hcs (h ▸ hc)
      simpa using hne
    · have hne : c ≠ '.' := by
        rintro rfl
        exact absurd (hdigits _ hc) (by decide)
      simpa using hne
  simp only [Value.withDecimals, String.toList_ofList, hany, hlast, Bool.not_true, Bool.or_false,
    Bool.false_eq_true, if_false, String.toList_append]
  rfl

/-- The sign in front of a magnitude. -/
theorem signed_eq_append (negative : Bool) (magnitude : List Char) :
    (if negative then '-' :: magnitude else magnitude)
      = (if negative then ['-'] else []) ++ magnitude := by
  cases negative <;> rfl

/-- The text of a positive decimal as a value is one of its layouts behind the sign. -/
theorem exists_laidOut (d : Decimal) (negative : Bool) :
    ∃ whole places, d.LaidOut whole places ∧
      (Value.withDecimals (String.ofList (if negative then '-' :: d.positional else d.positional))
        ).toList = Numeral.written negative whole (some places) := by
  have hsign : '.' ∉ (if negative then ['-'] else []) := by cases negative <;> simp
  rw [signed_eq_append]
  unfold Decimal.positional Numeral.written
  dsimp only
  -- The point stands behind the digits, between them, or in front of them.
  by_cases h : 0 ≤ d.exponent
  · have hlaid := d.laidOut_whole h
    refine ⟨_, _, hlaid, ?_⟩
    rw [if_pos h, withDecimals_digits hsign hlaid.whole_ne
      (fun c hc => hlaid.digits c (List.mem_append_left _ hc))]
  · rw [if_neg h]
    by_cases hlen : (-d.exponent).toNat < d.digitChars.length
    · refine ⟨_, _, d.laidOut_inside (by omega) hlen, ?_⟩
      rw [if_pos hlen, withDecimals_point (by simp), List.append_assoc]
    · refine ⟨_, _, d.laidOut_below (by omega) (by omega), ?_⟩
      rw [if_neg hlen, withDecimals_point (by simp)]
      simp

/-- The text of a finite number as a value is a numeral with a fraction that reads back as the
number. -/
theorem exists_numeral (hp : 2 ≤ f.precision) {x : Binary f} (hfinite : x.isFinite = true) :
    ∃ negative whole places, whole ≠ [] ∧ places ≠ [] ∧
      (∀ c ∈ whole ++ places, c.isDigit = true) ∧
      (Value.withDecimals x.plain).toList = Numeral.written negative whole (some places) ∧
      Numeral.toBinary f ⟨negative, whole, some places, none⟩ = x := by
  cases x with
  | nan => cases hfinite
  | signed negative rank =>
    simp only [isFinite, decide_eq_true_eq] at hfinite
    have hne : rank.val ≠ f.infinityRank := Nat.ne_of_lt hfinite
    by_cases hzero : rank.val = 0
    · refine ⟨negative, ['0'], ['0'], by simp, by simp, by simp, ?_, ?_⟩
      · have hsign : '.' ∉ (if negative then ['-'] else []) := by cases negative <;> simp
        simp only [plain, if_neg hne, if_pos hzero]
        rw [signed_eq_append, withDecimals_digits hsign (by simp) (by simp)]
        simp [Numeral.written]
      · have hdigits : natOfDigits (['0'] ++ ['0']) = 0 := by decide
        simp only [Numeral.toBinary, Option.getD_some, Option.getD_none, hdigits, ofDecimal_zero]
        unfold zero
        congr 1
        exact Fin.ext hzero.symm
    · obtain ⟨whole, places, hlaid, htext⟩ := exists_laidOut (f.shortest .up rank) negative
      refine ⟨negative, whole, places, hlaid.whole_ne, hlaid.places_ne, hlaid.digits, ?_, ?_⟩
      · simp only [plain, if_neg hne, if_neg hzero]
        exact htext
      · simp only [Numeral.toBinary, Option.getD_some, Option.getD_none, Int.zero_sub]
        exact ofDecimal_laidOut hp negative .up (Nat.pos_of_ne_zero hzero) hlaid

end Binary

end Criteria.Number
