import Criteria.Proofs.Number.Numeral
import Criteria.Text.Basic

/-! # What stands behind a numeral

A numeral is cut off in the same way whatever stands behind it, if that starts with a character that
is no part of numerals (`Numeral.span?_followed`).
-/

set_option autoImplicit false

namespace Criteria.Number.Numeral

/-- A character that stands in no numeral. -/
def IsForeign (d : Char) : Prop := d.isDigit = false ∧ d ∉ ['.', 'e', 'E', '+', '-']

instance (d : Char) : Decidable (IsForeign d) := inferInstanceAs (Decidable (_ ∧ _))

theorem isForeign_of_isBlank {d : Char} (h : Text.isBlank d = true) : IsForeign d := by
  have hall : ∀ d, Text.isBlank d = true → IsForeign d := Text.forall_isBlank.2 (by decide)
  exact hall d h

/-- What is cut off the front of a text is cut off as well if the text goes on with a foreign
character. -/
def Passes (span : List Char → List Char × List Char) : Prop :=
  ∀ cs d back, IsForeign d → span (cs ++ d :: back) = ((span cs).1, (span cs).2 ++ d :: back)

theorem spanDigits_passes : Passes spanDigits := by
  intro cs d back hd
  induction cs with
  | nil => simp [spanDigits, hd.1]
  | cons c cs ih =>
    obtain ⟨hfront, hbehind⟩ := Prod.mk.inj ih
    simp only [spanDigits, List.cons_append, List.takeWhile_cons, List.dropWhile_cons]
    split
    · rw [hfront, hbehind]
      rfl
    · rfl

theorem spanMinus_passes : Passes spanMinus := by
  rintro (_ | ⟨c, cs⟩) d back hd
  · have hminus : d ≠ '-' := fun h => hd.2 (by simp [h])
    rw [List.nil_append, spanMinus_cons, if_neg hminus]
    rfl
  · rw [List.cons_append, spanMinus_cons, spanMinus_cons]
    split <;> rfl

theorem spanSign_passes : Passes spanSign := by
  rintro (_ | ⟨c, cs⟩) d back hd
  · have hsign : ¬(d = '+' ∨ d = '-') := by
      rintro (rfl | rfl) <;> exact hd.2 (by simp)
    rw [List.nil_append, spanSign_cons, if_neg hsign]
    rfl
  · rw [List.cons_append, spanSign_cons, spanSign_cons]
    split <;> rfl

theorem spanFraction_passes : Passes spanFraction := by
  rintro (_ | ⟨c, cs⟩) d back hd
  · have hdot : d ≠ '.' := fun h => hd.2 (by simp [h])
    rw [List.nil_append, spanFraction_cons, if_neg fun h => hdot h.1]
    rfl
  · rw [List.cons_append, spanFraction_cons, spanFraction_cons, spanDigits_passes cs d back hd]
    dsimp only
    split <;> rfl

theorem startsExponent_followed {c d : Char} (hd : IsForeign d) (cs back : List Char) :
    startsExponent c (cs ++ d :: back) = startsExponent c cs := by
  unfold startsExponent
  rw [spanSign_passes cs d back hd]
  dsimp only
  rw [spanDigits_passes _ d back hd]

theorem spanExponent_passes : Passes spanExponent := by
  rintro (_ | ⟨c, cs⟩) d back hd
  · have hmark : ¬startsExponent d back = true := by
      have he : d ≠ 'e' := fun h => hd.2 (by simp [h])
      have hE : d ≠ 'E' := fun h => hd.2 (by simp [h])
      simp [startsExponent, he, hE]
    rw [List.nil_append, spanExponent_cons, if_neg hmark]
    rfl
  · rw [List.cons_append, spanExponent_cons, spanExponent_cons, startsExponent_followed hd]
    split
    · rw [spanSign_passes cs d back hd]
      dsimp only
      rw [spanDigits_passes _ d back hd]
    · rfl

/-- A numeral is cut off in the same way if the text goes on with a foreign character. -/
theorem span?_followed {d : Char} (hd : IsForeign d) (cs back : List Char) :
    span? (cs ++ d :: back) =
      (span? cs).map fun (n, text, rest) => (n, text, rest ++ d :: back) := by
  unfold span?
  rw [spanMinus_passes cs d back hd]
  dsimp only
  rw [spanDigits_passes _ d back hd]
  dsimp only
  rw [spanFraction_passes _ d back hd]
  dsimp only
  rw [spanExponent_passes _ d back hd]
  dsimp only
  split <;> rfl

/-- A numeral starts with a minus sign or a digit. -/
theorem exists_first {text : List Char} {n : Numeral} (h : span? text = some (n, text, [])) :
    ∃ c r, text = c :: r ∧ (c = '-' ∨ c.isDigit = true) := by
  obtain ⟨c, r, rfl⟩ := List.exists_cons_of_ne_nil (span?_ne_nil h)
  refine ⟨c, r, rfl, ?_⟩
  by_contra hnone
  rw [not_or, Bool.not_eq_true] at hnone
  rw [span?, spanMinus_cons, if_neg hnone.1] at h
  simp [spanDigits, hnone.2] at h

/-- What a numeral starts with is no blank. -/
theorem isBlank_first {c : Char} (h : c = '-' ∨ c.isDigit = true) : Text.isBlank c = false := by
  by_contra hblank
  have hall : ∀ c, Text.isBlank c = true → ¬(c = '-' ∨ c.isDigit = true) :=
    Text.forall_isBlank.2 (by decide)
  exact hall c (by simpa using hblank) h

end Criteria.Number.Numeral
