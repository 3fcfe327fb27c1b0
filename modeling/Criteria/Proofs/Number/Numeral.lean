import Criteria.Number.Numeral
import Criteria.Number.Word
import Criteria.Proofs.Text.Parts
import Mathlib

/-! # Reading written numbers

A run of digits reads back as the number it writes, and a numeral is found again in front of any
text that cannot go on with it (`Numeral.span?_written`).
-/

set_option autoImplicit false

namespace Criteria.Number

open Text

/-! ## Digits -/

theorem natOfDigits_eq (digits : List Char) : natOfDigits digits = Nat.ofDigitChars 10 digits 0 :=
  rfl

theorem natOfDigits_toDigits (n : Nat) : natOfDigits (Nat.toDigits 10 n) = n := by
  rw [natOfDigits_eq, Nat.ofDigitChars_ten_toDigits]

theorem natOfDigits_append_zeros (digits : List Char) (n : Nat) :
    natOfDigits (digits ++ List.replicate n '0') = natOfDigits digits * 10 ^ n := by
  rw [natOfDigits_eq, natOfDigits_eq, Nat.ofDigitChars_append, Nat.ofDigitChars_replicate_zero,
    Nat.mul_comm]

theorem natOfDigits_zeros_append (digits : List Char) (n : Nat) :
    natOfDigits (List.replicate n '0' ++ digits) = natOfDigits digits := by
  rw [natOfDigits_eq, natOfDigits_eq, Nat.ofDigitChars_append, Nat.ofDigitChars_replicate_zero,
    Nat.mul_zero]

/-- The code points of the digits are those from 48 to 57. -/
theorem toNat_of_isDigit {c : Char} (h : c.isDigit = true) : 48 ≤ c.toNat ∧ c.toNat ≤ 57 := by
  simp only [Char.isDigit, Bool.and_eq_true, decide_eq_true_eq, ge_iff_le,
    UInt32.le_iff_toNat_le] at h
  exact h

theorem natOfDigits_lt {digits : List Char} (h : ∀ c ∈ digits, c.isDigit = true) :
    natOfDigits digits < 10 ^ digits.length := by
  induction digits with
  | nil => decide
  | cons c cs ih =>
    have hc := toNat_of_isDigit (h c (by simp))
    have hcs := ih fun d hd => h d (by simp [hd])
    have hzero : '0'.toNat = 48 := by decide
    rw [natOfDigits_eq, Nat.ofDigitChars_cons, Nat.ofDigitChars_eq_ofDigitChars_zero,
      ← natOfDigits_eq, hzero]
    -- The first digit is at most nine, and the others stay below its unit.
    have hhead : 10 ^ cs.length * (10 * 0 + (c.toNat - 48)) ≤ 10 ^ cs.length * 9 :=
      Nat.mul_le_mul_left _ (by omega)
    rw [List.length_cons, Nat.pow_succ]
    omega

theorem isDigit_of_mem_toDigits {n : Nat} {c : Char} (h : c ∈ Nat.toDigits 10 n) :
    c.isDigit = true := Nat.isDigit_of_mem_toDigits (by decide) (by decide) h

theorem toList_toString_int (n : Int) :
    (toString n).toList = (if n < 0 then ['-'] else []) ++ Nat.toDigits 10 n.natAbs := by
  cases n with
  | ofNat m =>
    have h : ¬ Int.ofNat m < 0 := by simp
    rw [if_neg h]
    exact Nat.toList_repr
  | negSucc m =>
    rw [if_pos (Int.negSucc_lt_zero m)]
    show ("-" ++ Nat.repr (m + 1)).toList = _
    rw [String.toList_append, Nat.toList_repr]
    rfl

theorem spanDigits_written {digits rest : List Char} (hdigits : ∀ c ∈ digits, c.isDigit = true)
    (hrest : ∀ c ∈ rest.head?, c.isDigit = false) :
    spanDigits (digits ++ rest) = (digits, rest) := by
  unfold spanDigits
  rw [takeWhile_append_stop hdigits hrest, dropWhile_append_stop hdigits hrest]

/-! ## Numerals -/

namespace Numeral

/-- The characters of a numeral without exponent. -/
def written (negative : Bool) (whole : List Char) (fraction : Option (List Char)) : List Char :=
  (if negative then ['-'] else []) ++ whole ++
    match fraction with
    | some places => '.' :: places
    | none => []

/-- What does not go on with a numeral: the text is at its end, or goes on with neither a digit
nor the start of a fraction or an exponent. -/
def Ended (rest : List Char) : Prop :=
  ∀ c ∈ rest.head?, c.isDigit = false ∧ c ≠ '.' ∧ c ≠ 'e' ∧ c ≠ 'E'

theorem spanExponent_ended {rest : List Char} (h : Ended rest) :
    spanExponent rest = ([], rest) := by
  cases rest with
  | nil => rfl
  | cons c r =>
    obtain ⟨-, -, he, hE⟩ := h c (by simp)
    simp [spanExponent, he, hE]

theorem spanFraction_ended {rest : List Char} (h : Ended rest) :
    spanFraction rest = ([], rest) := by
  cases rest with
  | nil => rfl
  | cons c r =>
    obtain ⟨-, hdot, -, -⟩ := h c (by simp)
    unfold spanFraction
    split
    · rename_i heq
      cases heq
      exact absurd rfl hdot
    · rfl

theorem spanMinus_written {negative : Bool} {whole behind : List Char} (hne : whole ≠ [])
    (hwhole : ∀ c ∈ whole, c.isDigit = true) :
    spanMinus ((if negative then ['-'] else []) ++ (whole ++ behind))
      = (if negative then ['-'] else [], whole ++ behind) := by
  cases negative with
  | true => rfl
  | false =>
    obtain ⟨c, r, rfl⟩ := List.exists_cons_of_ne_nil hne
    have hc : c.isDigit = true := hwhole c (by simp)
    simp only [Bool.false_eq_true, if_false, List.nil_append, List.cons_append]
    unfold spanMinus
    split
    · rename_i heq
      cases heq
      exact absurd hc (by decide)
    · rfl

theorem span?_written {negative : Bool} {whole rest : List Char} {fraction : Option (List Char)}
    (hne : whole ≠ []) (hwhole : ∀ c ∈ whole, c.isDigit = true)
    (hfraction : ∀ places ∈ fraction, places ≠ [] ∧ ∀ c ∈ places, c.isDigit = true)
    (hrest : Ended rest) :
    span? (written negative whole fraction ++ rest)
      = some (⟨negative, whole, fraction, none⟩, written negative whole fraction, rest) := by
  have hend : ∀ c ∈ rest.head?, c.isDigit = false := fun c hc => (hrest c hc).1
  have hempty : whole.isEmpty = false := by cases whole <;> simp_all
  unfold written span?
  -- The parts are cut off one after the other; without a fraction the point is missing as well.
  cases fraction with
  | none =>
    simp only [List.append_nil, List.append_assoc]
    rw [spanMinus_written hne hwhole]
    dsimp only
    rw [spanDigits_written hwhole hend]
    dsimp only
    rw [spanFraction_ended hrest]
    dsimp only
    rw [spanExponent_ended hrest, hempty]
    cases negative <;> simp [exponentValue]
  | some places =>
    obtain ⟨hplaces, hdigits⟩ := hfraction places rfl
    have hsome : places.isEmpty = false := by cases places <;> simp_all
    have hdot : ∀ c ∈ ('.' :: (places ++ rest)).head?, c.isDigit = false := by simp
    have hspan : spanFraction ('.' :: (places ++ rest)) = ('.' :: places, rest) := by
      simp only [spanFraction, spanDigits_written hdigits hend, hsome]
      rfl
    simp only [List.append_assoc, List.cons_append]
    rw [spanMinus_written hne hwhole]
    dsimp only
    rw [spanDigits_written hwhole hdot]
    dsimp only
    rw [hspan]
    dsimp only
    rw [spanExponent_ended hrest, hempty]
    cases negative <;> simp [exponentValue]

/-! ## Texts that end earlier

A numeral looks at what stands behind it only to see whether it goes on, so it is cut off in the
same way if the text ends somewhere behind it.
-/

/-- What is cut off the front of a text is cut off as well if the text ends earlier. -/
def EndsEarlier (span : List Char → List Char × List Char) : Prop :=
  ∀ front rest back, span (front ++ (rest ++ back)) = (front, rest ++ back) →
    span (front ++ rest) = (front, rest)

theorem spanDigits_endsEarlier : EndsEarlier spanDigits := by
  intro front rest back h
  obtain ⟨hfront, hbehind⟩ := Prod.mk.inj h
  obtain ⟨hdigits, hstop⟩ := of_takeWhile hfront hbehind
  exact spanDigits_written hdigits (forall_head?_of_append hstop)

/-- Where no digits stand at the front of a text, none do if it ends earlier. -/
theorem spanDigits_isEmpty_of_append {cs back : List Char}
    (h : (spanDigits (cs ++ back)).1.isEmpty = true) : (spanDigits cs).1.isEmpty = true := by
  have hnone : spanDigits ([] ++ (cs ++ back)) = ([], cs ++ back) := by
    have happend := spanDigits_append (cs ++ back)
    have hfront := List.isEmpty_iff.1 h
    rw [hfront, List.nil_append] at happend
    exact Prod.ext hfront happend
  have hearlier := spanDigits_endsEarlier [] cs back hnone
  rw [List.nil_append] at hearlier
  rw [hearlier]
  rfl

theorem spanMinus_cons (c : Char) (r : List Char) :
    spanMinus (c :: r) = if c = '-' then ([c], r) else ([], c :: r) := by
  unfold spanMinus
  split
  · rename_i heq
    cases heq
    rfl
  · rename_i hne
    rw [if_neg fun hc => hne r (by rw [hc])]

theorem spanSign_cons (c : Char) (r : List Char) :
    spanSign (c :: r) = if c = '+' ∨ c = '-' then ([c], r) else ([], c :: r) := by
  unfold spanSign
  split
  · rename_i heq
    cases heq
    rfl
  · rename_i heq
    cases heq
    rfl
  · rename_i hplus hminus
    have hneither : ¬(c = '+' ∨ c = '-') := by
      rintro (rfl | rfl)
      · exact hplus r rfl
      · exact hminus r rfl
    rw [if_neg hneither]

/-- One character, or none, is cut off without a look at what follows it. -/
theorem endsEarlier_of_cons {span : List Char → List Char × List Char} {P : Char → Prop}
    [DecidablePred P] (hnil : span [] = ([], []))
    (hcons : ∀ c r, span (c :: r) = if P c then ([c], r) else ([], c :: r)) :
    EndsEarlier span := by
  intro front rest back h
  cases front with
  | nil =>
    cases rest with
    | nil => exact hnil
    | cons c r =>
      by_cases hc : P c
      · simp [hcons, hc] at h
      · simp [hcons, hc]
  | cons c front =>
    by_cases hc : P c
    · simp only [List.cons_append, hcons, hc, if_true, Prod.mk.injEq, List.cons.injEq,
        true_and] at h
      obtain ⟨rfl, -⟩ := h
      simp [hcons, hc]
    · simp [hcons, hc] at h

theorem spanMinus_endsEarlier : EndsEarlier spanMinus := endsEarlier_of_cons rfl spanMinus_cons

theorem spanSign_endsEarlier : EndsEarlier spanSign := endsEarlier_of_cons rfl spanSign_cons

theorem spanFraction_cons (c : Char) (r : List Char) :
    spanFraction (c :: r) =
      if c = '.' ∧ (spanDigits r).1.isEmpty = false then (c :: (spanDigits r).1, (spanDigits r).2)
      else ([], c :: r) := by
  unfold spanFraction
  split
  · rename_i heq
    cases heq
    dsimp only
    cases (spanDigits r).1.isEmpty <;> simp
  · rename_i hne
    rw [if_neg fun hc => hne r (by rw [hc.1])]

theorem spanFraction_endsEarlier : EndsEarlier spanFraction := by
  intro front rest back h
  cases front with
  | nil =>
    cases rest with
    | nil => rfl
    | cons c r =>
      rw [List.nil_append, List.cons_append, spanFraction_cons] at h
      have hnone : ¬(c = '.' ∧ (spanDigits r).1.isEmpty = false) := by
        rintro ⟨hc, hdigits⟩
        have hmore : ¬(spanDigits (r ++ back)).1.isEmpty = true := fun hempty => by
          rw [spanDigits_isEmpty_of_append hempty] at hdigits
          cases hdigits
        rw [if_pos ⟨hc, by simpa using hmore⟩] at h
        cases (Prod.mk.inj h).1
      rw [List.nil_append, spanFraction_cons, if_neg hnone]
  | cons c digits =>
    rw [List.cons_append, spanFraction_cons] at h
    split at h
    · rename_i hdot
      obtain ⟨hfront, hbehind⟩ := Prod.mk.inj h
      have hdigits : (spanDigits (digits ++ (rest ++ back))).1 = digits := (List.cons.inj hfront).2
      have hspan := spanDigits_endsEarlier digits rest back (Prod.ext hdigits hbehind)
      rw [hdigits] at hdot
      rw [List.cons_append, spanFraction_cons, hspan, if_pos hdot]
    · cases (Prod.mk.inj h).1

/-- An exponent stands at the front of a text: its mark, a sign or none, and digits. -/
def startsExponent (c : Char) (r : List Char) : Bool :=
  (c = 'e' || c = 'E') && !(spanDigits (spanSign r).2).1.isEmpty

theorem spanExponent_cons (c : Char) (r : List Char) :
    spanExponent (c :: r) =
      if startsExponent c r = true then
        (c :: (spanSign r).1 ++ (spanDigits (spanSign r).2).1, (spanDigits (spanSign r).2).2)
      else ([], c :: r) := rfl

theorem startsExponent_of_append {c : Char} {r back : List Char} (h : startsExponent c r = true) :
    startsExponent c (r ++ back) = true := by
  unfold startsExponent at h ⊢
  rw [Bool.and_eq_true] at h ⊢
  refine ⟨h.1, ?_⟩
  by_contra hempty
  -- What follows the sign is longer by the same characters.
  have hbehind : (spanSign (r ++ back)).2 = (spanSign r).2 ++ back := by
    cases r with
    | nil =>
      have hnone := h.2
      cases hnone
    | cons d r =>
      rw [List.cons_append, spanSign_cons, spanSign_cons]
      split <;> rfl
  rw [hbehind] at hempty
  have hless := spanDigits_isEmpty_of_append (by simpa using hempty)
  rw [hless] at h
  cases h.2

theorem spanExponent_endsEarlier : EndsEarlier spanExponent := by
  intro front rest back h
  cases front with
  | nil =>
    cases rest with
    | nil => rfl
    | cons c r =>
      rw [List.nil_append, List.cons_append, spanExponent_cons] at h
      split at h
      · cases (Prod.mk.inj h).1
      · rename_i hmore
        have hnone : ¬startsExponent c r = true := fun hr => hmore (startsExponent_of_append hr)
        rw [List.nil_append, spanExponent_cons, if_neg hnone]
  | cons c front =>
    rw [List.cons_append, spanExponent_cons] at h
    split at h
    · rename_i hexponent
      obtain ⟨hfront, hbehind⟩ := Prod.mk.inj h
      obtain ⟨sign, behind, hsign⟩ : ∃ sign behind, spanSign (front ++ (rest ++ back))
          = (sign, behind) := ⟨_, _, rfl⟩
      obtain ⟨digits, hdigits⟩ : ∃ digits, (spanDigits behind).1 = digits := ⟨_, rfl⟩
      rw [hsign] at hfront hbehind
      rw [startsExponent, hsign, hdigits] at hexponent
      rw [hdigits] at hfront
      obtain rfl : sign ++ digits = front := (List.cons.inj hfront).2
      have hspan : spanDigits behind = (digits, rest ++ back) := Prod.ext hdigits hbehind
      have happend : digits ++ (rest ++ back) = behind := by
        rw [← spanDigits_append behind, hspan]
      have hsign' : spanSign (sign ++ (digits ++ rest)) = (sign, digits ++ rest) := by
        apply spanSign_endsEarlier sign (digits ++ rest) back
        rw [List.append_assoc digits, ← List.append_assoc sign, hsign, happend]
      have hspan' : spanDigits (digits ++ rest) = (digits, rest) := by
        apply spanDigits_endsEarlier digits rest back
        rw [happend, hspan]
      rw [List.cons_append, spanExponent_cons, startsExponent, List.append_assoc, hsign']
      dsimp only
      rw [hspan', if_pos hexponent, List.cons_append]
    · cases (Prod.mk.inj h).1

/-- A numeral is cut off in the same way if the text ends earlier behind it. -/
theorem span?_endsEarlier {text rest back : List Char} {n : Numeral}
    (h : span? (text ++ (rest ++ back)) = some (n, text, rest ++ back)) :
    span? (text ++ rest) = some (n, text, rest) := by
  -- The parts one after the other, each with what stands behind it.
  obtain ⟨minus, unsigned, hminus⟩ : ∃ minus unsigned, spanMinus (text ++ (rest ++ back))
      = (minus, unsigned) := ⟨_, _, rfl⟩
  obtain ⟨whole, afterWhole, hwhole⟩ : ∃ whole afterWhole, spanDigits unsigned
      = (whole, afterWhole) := ⟨_, _, rfl⟩
  obtain ⟨fraction, afterFraction, hfraction⟩ : ∃ fraction afterFraction, spanFraction afterWhole
      = (fraction, afterFraction) := ⟨_, _, rfl⟩
  obtain ⟨exponent, behind, hexponent⟩ : ∃ exponent behind, spanExponent afterFraction
      = (exponent, behind) := ⟨_, _, rfl⟩
  have hunsigned := spanDigits_append unsigned
  have hafterWhole := spanFraction_append afterWhole
  have hafterFraction := spanExponent_append afterFraction
  rw [span?, hminus] at h
  dsimp only at h
  rw [hwhole] at h hunsigned
  dsimp only at h hunsigned
  rw [hfraction] at h hafterWhole
  dsimp only at h hafterWhole
  rw [hexponent] at h hafterFraction
  dsimp only at h hafterFraction
  split at h
  · cases h
  · rename_i hnonempty
    simp only [Option.some.injEq, Prod.mk.injEq] at h
    obtain ⟨hn, rfl, rfl⟩ := h
    subst hafterFraction hafterWhole hunsigned
    simp only [List.append_assoc] at *
    have hminus' := spanMinus_endsEarlier minus (whole ++ (fraction ++ (exponent ++ rest))) back
    have hwhole' := spanDigits_endsEarlier whole (fraction ++ (exponent ++ rest)) back
    have hfraction' := spanFraction_endsEarlier fraction (exponent ++ rest) back
    have hexponent' := spanExponent_endsEarlier exponent rest back
    simp only [List.append_assoc] at hminus' hwhole' hfraction' hexponent'
    rw [span?, hminus' hminus]
    dsimp only
    rw [hwhole' hwhole]
    dsimp only
    rw [hfraction' hfraction]
    dsimp only
    rw [hexponent' hexponent]
    dsimp only
    rw [if_neg hnonempty, hn, List.append_assoc minus, List.append_assoc minus,
      List.append_assoc whole]

end Numeral

end Criteria.Number
