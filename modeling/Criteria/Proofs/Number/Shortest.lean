import Criteria.Number.Shortest
import Criteria.Proofs.Number.Rounding

/-! # Shortest decimals round to their magnitude

The decimal that `Format.shortest` finds lies in the interval of its rank
(`Format.shortest_mem`), whichever way ties go, so the ratio it writes is rounded to that rank
again (`Decimal.Mem.roundsTo`).
-/

set_option autoImplicit false

namespace Criteria.Number

/-- Stripping zeros moves factors of ten from the digits to the exponent. -/
theorem Decimal.strip_eq (digits : Nat) (exponent : Int) :
    ∃ k : Nat, (strip digits exponent).exponent = exponent + k ∧
      digits = (strip digits exponent).digits * 10 ^ k := by
  fun_induction strip digits exponent with
  | case1 digits exponent h ih =>
    obtain ⟨k, hexp, hdigits⟩ := ih
    refine ⟨k + 1, ?_, ?_⟩
    · rw [hexp]; push_cast; ring
    · rw [Nat.pow_succ, ← Nat.mul_assoc, ← hdigits]
      omega
  | case2 digits exponent h => exact ⟨0, by simp, by simp⟩

/-- The decimal is a multiple of the interval's smallest step that lies in the interval. -/
def Decimal.Mem (d : Decimal) (i : Interval) : Prop :=
  ∃ n : Nat, d.exponent = (n : Int) - i.places ∧ i.contains (d.digits * 10 ^ n) = true

namespace Interval

theorem contains_iff {i : Interval} {n : Nat} :
    i.contains n = true ↔
      (i.low < n ∧ n < i.high) ∨ (i.closed = true ∧ (n = i.low ∨ n = i.high)) := by
  simp [contains]

/-- Both neighbours are hits before a tie is broken, so it does not matter how it is broken. -/
theorem contains_of_neighbour? {i : Interval} {tie : Tie} {step n : Nat}
    (h : i.neighbour? tie step = some n) : i.contains (n * step) = true := by
  unfold neighbour? at h
  dsimp only at h
  split at h
  · cases h
  · cases h; assumption
  · cases h; assumption
  · rename_i hbelow habove
    split at h
    · cases h; assumption
    · split at h
      · cases h; assumption
      -- Equally near: either neighbour is one that was found to be contained.
      · cases tie with
        | up => cases h; assumption
        | even =>
          cases h
          rcases Nat.mod_two_eq_zero_or_one (i.value / step) with heven | hodd
          · rwa [heven]
          · rwa [hodd]

theorem coarsest_mem {i : Interval} (tie : Tie) (hvalue : i.contains i.value = true) (n : Nat) :
    (i.coarsest tie n).Mem i := by
  induction n with
  | zero => exact ⟨0, by simp [coarsest], by simpa [coarsest] using hvalue⟩
  | succ n ih =>
    unfold coarsest
    split
    · rename_i digits hit
      -- Zeros that were stripped count in the exponent, so the multiple is the same.
      obtain ⟨k, hexp, hdigits⟩ := Decimal.strip_eq digits ((n : Int) - i.places)
      refine ⟨n + k, ?_, ?_⟩
      · rw [hexp]; push_cast; ring
      · have hmem := contains_of_neighbour? hit
        rw [hdigits, Nat.mul_assoc, ← Nat.pow_add, Nat.add_comm k n] at hmem
        exact hmem
    · exact ih

/-- The magnitude lies in the interval that rounds to it. -/
theorem contains_value (f : Format) {rank : Nat} (hrank : 0 < rank) :
    (ofRank f rank).contains (ofRank f rank).value = true := by
  have hpow : 0 < 5 ^ (f.subunit + 1) := Nat.pos_of_ne_zero (by positivity)
  have hbelow : f.units (rank - 1) < f.units rank := f.units_strictMono (by omega)
  have habove : f.units rank < f.units (rank + 1) := f.units_lt_succ rank
  have h₁ : (f.units (rank - 1) + f.units rank) * 5 ^ (f.subunit + 1)
      < 2 * f.units rank * 5 ^ (f.subunit + 1) := Nat.mul_lt_mul_of_pos_right (by omega) hpow
  have h₂ : 2 * f.units rank * 5 ^ (f.subunit + 1)
      < (f.units rank + f.units (rank + 1)) * 5 ^ (f.subunit + 1) :=
    Nat.mul_lt_mul_of_pos_right (by omega) hpow
  exact contains_iff.2 (Or.inl ⟨h₁, h₂⟩)

/-- What an interval contains is a ratio that rounds to its rank. -/
theorem roundsTo_of_contains {f : Format} {rank n : Nat}
    (h : (ofRank f rank).contains n = true) : f.RoundsTo rank n (10 ^ (f.subunit + 1)) := by
  have hden : 10 ^ (f.subunit + 1) = 5 ^ (f.subunit + 1) * 2 ^ (f.subunit + 1) := by
    rw [← Nat.mul_pow]
  have hscaled : 2 * (n * 2 ^ f.subunit) = n * 2 ^ (f.subunit + 1) := by
    rw [Nat.pow_succ]; ring
  have hpos : 0 < 2 ^ (f.subunit + 1) := Nat.two_pow_pos _
  have hrank : (ofRank f rank).closed = true ↔ rank % 2 = 0 := by simp [ofRank]
  rw [contains_iff, hrank] at h
  simp only [ofRank] at h
  have hmono : f.units (rank - 1) ≤ f.units (rank + 1) :=
    f.units_strictMono.monotone (by omega)
  have hends : (f.units (rank - 1) + f.units rank) * 5 ^ (f.subunit + 1)
      ≤ (f.units rank + f.units (rank + 1)) * 5 ^ (f.subunit + 1) :=
    Nat.mul_le_mul_right _ (by omega)
  constructor
  · rw [hscaled, hden, ← Nat.mul_assoc]
    exact Nat.mul_le_mul_right _ (by omega)
  · rw [hscaled, hden, ← Nat.mul_assoc]
    exact Nat.mul_le_mul_right _ (by omega)
  · rw [hscaled, hden, ← Nat.mul_assoc, ← Nat.mul_assoc]
    -- A ratio on an end of the interval is contained only if the interval is closed.
    intro htie
    have htie' := htie.imp (Nat.eq_of_mul_eq_mul_right hpos) (Nat.eq_of_mul_eq_mul_right hpos)
    omega

end Interval

theorem Format.shortest_mem (f : Format) (tie : Tie) {rank : Nat} (hrank : 0 < rank) :
    (f.shortest tie rank).Mem (Interval.ofRank f rank) :=
  Interval.coarsest_mem tie (Interval.contains_value f hrank) _

/-- Whether a ratio rounds to a rank depends on its value alone. -/
theorem Format.RoundsTo.congr {f : Format} {rank num den num' den' : Nat} (hden : 0 < den)
    (hden' : 0 < den') (heq : num * den' = num' * den) (h : f.RoundsTo rank num den) :
    f.RoundsTo rank num' den' := by
  have hscaled : 2 * (num * 2 ^ f.subunit) * den' = 2 * (num' * 2 ^ f.subunit) * den := by
    calc 2 * (num * 2 ^ f.subunit) * den' = 2 * (num * den') * 2 ^ f.subunit := by ring
      _ = 2 * (num' * den) * 2 ^ f.subunit := by rw [heq]
      _ = 2 * (num' * 2 ^ f.subunit) * den := by ring
  have hswap (u : Nat) : u * den' * den = u * den * den' := by ring
  constructor
  · refine Nat.le_of_mul_le_mul_right ?_ hden
    rw [hswap, ← hscaled]
    exact Nat.mul_le_mul_right _ h.low
  · refine Nat.le_of_mul_le_mul_right ?_ hden
    rw [hswap, ← hscaled]
    exact Nat.mul_le_mul_right _ h.high
  · intro htie
    refine h.tie (htie.imp (fun heq' => ?_) (fun heq' => ?_))
    · refine Nat.eq_of_mul_eq_mul_right hden' ?_
      rw [← hswap, heq', hscaled]
    · refine Nat.eq_of_mul_eq_mul_right hden' ?_
      rw [← hswap, hscaled, heq']

end Criteria.Number
