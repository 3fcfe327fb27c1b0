import Criteria.Text.IdentifierRanges

/-! # Identifier characters

An identifier starts with a letter or an underscore and goes on with letters, digits,
underscores and marks, as Unicode's `XID_Start` and `XID_Continue` have them. Below 128 both
classes are spelled out; above, they are looked up in the tables of ranges.
-/

set_option autoImplicit false

namespace Criteria.Text

/-- Whether `n` lies in one of the ranges, which stand in ascending order. -/
def inRanges (n : Nat) : List (Nat × Nat) → Bool
  | [] => false
  | (low, high) :: ranges => low ≤ n && (n ≤ high || inRanges n ranges)

/-- Whether `c` has the property `XID_Start`. -/
def isLetter (c : Char) : Bool :=
  if c.toNat < 128 then c.isAlpha else inRanges c.toNat startRanges

/-- Whether an identifier may start with `c`. -/
def isIdentifierStart (c : Char) : Bool := isLetter c || c = '_'

/-- Whether `c` may follow the first character of an identifier. -/
def isIdentifierPart (c : Char) : Bool :=
  if c.toNat < 128 then c.isAlphanum || c = '_'
  else inRanges c.toNat startRanges || inRanges c.toNat continueRanges

theorem isIdentifierPart_of_start {c : Char} (h : isIdentifierStart c = true) :
    isIdentifierPart c = true := by
  unfold isIdentifierStart isLetter at h
  unfold isIdentifierPart
  by_cases hc : c.toNat < 128
  · rw [if_pos hc] at h ⊢
    simp only [Bool.or_eq_true, decide_eq_true_eq] at h ⊢
    rcases h with h | h
    · exact Or.inl (by simp [Char.isAlphanum, h])
    · exact Or.inr h
  · rw [if_neg hc] at h ⊢
    simp only [Bool.or_eq_true, decide_eq_true_eq] at h ⊢
    rcases h with h | h
    · exact Or.inl h
    · subst h; exact absurd (by decide) hc

end Criteria.Text
