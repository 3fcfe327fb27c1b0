/-! # Integers of a fixed width

An integer that fits a signed word, together with the proof that it fits.
-/

set_option autoImplicit false

namespace Criteria.Number

-- Powers are those of the core library, whatever else is loaded beside it.
attribute [local instance (2000)] instPowNat

/-- A signed integer of the given number of bits. -/
structure Word (bits : Nat) where
  toInt : Int
  lower : -(2 ^ (bits - 1)) ≤ toInt
  upper : toInt < 2 ^ (bits - 1)
  deriving DecidableEq

/-- The word that holds `n`, if `n` fits. -/
def Word.ofInt? (bits : Nat) (n : Int) : Option (Word bits) :=
  if h : -(2 ^ (bits - 1)) ≤ n ∧ n < 2 ^ (bits - 1) then some ⟨n, h.1, h.2⟩ else none

instance {bits : Nat} : ToString (Word bits) := ⟨fun w => toString w.toInt⟩

namespace Word

theorem ofInt?_toInt {bits : Nat} (w : Word bits) : ofInt? bits w.toInt = some w := by
  simp [ofInt?, w.lower, w.upper]

theorem toInt_of_ofInt? {bits : Nat} {n : Int} {w : Word bits} (h : ofInt? bits n = some w) :
    w.toInt = n := by
  unfold ofInt? at h
  split at h
  · cases h; rfl
  · cases h

/-! ## Integers that fit -/

/-- The integer fits a word of the given number of bits. -/
def Fits (bits : Nat) (n : Int) : Prop := -(2 ^ (bits - 1)) ≤ n ∧ n < 2 ^ (bits - 1)

instance (bits : Nat) (n : Int) : Decidable (Fits bits n) :=
  inferInstanceAs (Decidable (_ ∧ _))

theorem fits_toInt {bits : Nat} (w : Word bits) : Fits bits w.toInt := ⟨w.lower, w.upper⟩

theorem exists_ofInt?_iff {bits : Nat} {n : Int} :
    (∃ w, ofInt? bits n = some w) ↔ Fits bits n := by
  constructor
  · rintro ⟨w, hw⟩
    exact toInt_of_ofInt? hw ▸ w.fits_toInt
  · intro h
    exact ⟨⟨n, h.1, h.2⟩, dif_pos h⟩

theorem ofInt?_eq_none_iff {bits : Nat} {n : Int} : ofInt? bits n = none ↔ ¬Fits bits n := by
  rw [← exists_ofInt?_iff, Option.eq_none_iff_forall_ne_some, not_exists]

/-! ## Wider words -/

/-- A word of 32 bits as a word of 64 bits. -/
def widen (w : Word 32) : Word 64 :=
  ⟨w.toInt, by have h := w.lower; omega, by have h := w.upper; omega⟩

theorem ofInt?_widen (w : Word 32) : ofInt? 32 w.widen.toInt = some w := w.ofInt?_toInt

end Word

end Criteria.Number
