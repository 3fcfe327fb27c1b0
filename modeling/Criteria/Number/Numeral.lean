import Criteria.Number.Binary

/-! # Numerals

A numeral is an optional minus sign, digits, and optionally a fraction and an exponent. An
optional part belongs to the numeral only when it is complete, so the longest numeral at the
head of a text is well defined.
-/

set_option autoImplicit false

namespace Criteria.Number

/-- The parts of a numeral; the fraction and the exponent are there or not. -/
structure Numeral where
  negative : Bool
  whole : List Char
  fraction : Option (List Char)
  exponent : Option Int
  deriving DecidableEq

/-- The number that decimal digits write. -/
def natOfDigits (digits : List Char) : Nat :=
  digits.foldl (fun n c => 10 * n + (c.toNat - '0'.toNat)) 0

/-- The longest run of digits at the head of a text, and what follows it. -/
def spanDigits (cs : List Char) : List Char × List Char :=
  (cs.takeWhile Char.isDigit, cs.dropWhile Char.isDigit)

theorem spanDigits_append (cs : List Char) : (spanDigits cs).1 ++ (spanDigits cs).2 = cs :=
  List.takeWhile_append_dropWhile

namespace Numeral

/-- Whether the numeral has neither a fraction nor an exponent. -/
def isInteger (n : Numeral) : Bool := n.fraction.isNone && n.exponent.isNone

/-- The value of a numeral without fraction and exponent. -/
def toInt (n : Numeral) : Int :=
  let magnitude : Int := natOfDigits n.whole
  if n.negative then -magnitude else magnitude

/-- The number of the format nearest to the numeral. -/
def toBinary (f : Format) (n : Numeral) : Binary f :=
  let places := n.fraction.getD []
  .ofDecimal f n.negative (natOfDigits (n.whole ++ places)) (n.exponent.getD 0 - places.length)

/-- A minus sign at the head of a text, and what follows it. -/
def spanMinus : List Char → List Char × List Char
  | '-' :: r => (['-'], r)
  | cs => ([], cs)

/-- The sign of an exponent, and what follows it. -/
def spanSign : List Char → List Char × List Char
  | '+' :: r => (['+'], r)
  | '-' :: r => (['-'], r)
  | cs => ([], cs)

/-- A complete fraction at the head of a text, and what follows it. -/
def spanFraction : List Char → List Char × List Char
  | '.' :: r =>
    let (digits, rest) := spanDigits r
    if digits.isEmpty then ([], '.' :: r) else ('.' :: digits, rest)
  | cs => ([], cs)

/-- A complete exponent at the head of a text, and what follows it. -/
def spanExponent : List Char → List Char × List Char
  | [] => ([], [])
  | c :: r =>
    let (sign, behind) := spanSign r
    let (digits, rest) := spanDigits behind
    if (c = 'e' || c = 'E') && !digits.isEmpty then (c :: sign ++ digits, rest) else ([], c :: r)

/-- The value of the text of an exponent. -/
def exponentValue : List Char → Option Int
  | [] => none
  | _ :: r =>
    let (sign, digits) := spanSign r
    let magnitude : Int := natOfDigits digits
    some (if sign = ['-'] then -magnitude else magnitude)

/-- The longest numeral at the head of a text: its parts, its characters, and what follows. -/
def span? (cs : List Char) : Option (Numeral × List Char × List Char) :=
  let (minus, unsigned) := spanMinus cs
  let (whole, afterWhole) := spanDigits unsigned
  let (fraction, afterFraction) := spanFraction afterWhole
  let (exponent, rest) := spanExponent afterFraction
  if whole.isEmpty then none
  else
    some (⟨!minus.isEmpty, whole, fraction.tail?, exponentValue exponent⟩,
      minus ++ whole ++ fraction ++ exponent, rest)

theorem spanMinus_append (cs : List Char) : (spanMinus cs).1 ++ (spanMinus cs).2 = cs := by
  unfold spanMinus; split <;> rfl

theorem spanSign_append (cs : List Char) : (spanSign cs).1 ++ (spanSign cs).2 = cs := by
  unfold spanSign; split <;> rfl

theorem spanFraction_append (cs : List Char) :
    (spanFraction cs).1 ++ (spanFraction cs).2 = cs := by
  unfold spanFraction
  split
  · rename_i r
    have h := spanDigits_append r
    dsimp only
    split
    · rfl
    · simp [h]
  · rfl

theorem spanExponent_append (cs : List Char) :
    (spanExponent cs).1 ++ (spanExponent cs).2 = cs := by
  unfold spanExponent
  split
  · rfl
  · rename_i c r
    have h₁ := spanSign_append r
    have h₂ := spanDigits_append (spanSign r).2
    dsimp only
    split
    · simp [h₁, h₂]
    · rfl

/-- A numeral and what follows it make up the text. -/
theorem span?_append {cs text rest : List Char} {n : Numeral}
    (h : span? cs = some (n, text, rest)) : text ++ rest = cs := by
  unfold span? at h
  dsimp only at h
  split at h
  · cases h
  · simp only [Option.some.injEq, Prod.mk.injEq] at h
    obtain ⟨-, rfl, rfl⟩ := h
    have h₁ := spanMinus_append cs
    have h₂ := spanDigits_append (spanMinus cs).2
    have h₃ := spanFraction_append (spanDigits (spanMinus cs).2).2
    have h₄ := spanExponent_append (spanFraction (spanDigits (spanMinus cs).2).2).2
    simp only [List.append_assoc, h₄, h₃, h₂, h₁]

/-- A numeral is not empty. -/
theorem span?_ne_nil {cs text rest : List Char} {n : Numeral}
    (h : span? cs = some (n, text, rest)) : text ≠ [] := by
  unfold span? at h
  dsimp only at h
  split at h
  · cases h
  · rename_i hw
    simp only [Option.some.injEq, Prod.mk.injEq] at h
    obtain ⟨-, rfl, -⟩ := h
    intro hnil
    simp only [List.append_eq_nil_iff] at hnil
    exact hw (by simp [hnil.1.1.2])

/-- What follows a numeral is shorter than the text. -/
theorem span?_length_lt {cs text rest : List Char} {n : Numeral}
    (h : span? cs = some (n, text, rest)) : rest.length < cs.length := by
  have happ := congrArg List.length (span?_append h)
  have hpos := List.length_pos_iff.2 (span?_ne_nil h)
  simp only [List.length_append] at happ
  omega

end Numeral

end Criteria.Number
