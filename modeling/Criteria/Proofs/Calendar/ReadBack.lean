import Criteria.Proofs.Calendar.Civil
import Criteria.Proofs.Number.Numeral

/-! # Dates and instants read back

The text of a date reads back as that date (`Date.read?_text`). An instant that was read from a
text is valid (`Instant.read?_valid`), and its own text reads back as that instant if it falls in
the years 0 to 9999 of universal time, the years with four digits (`Instant.read?_text`).
-/

set_option autoImplicit false

namespace Criteria.Calendar

open Criteria.Text Criteria.Number

/-! ## Padded numbers -/

theorem isDigit_of_mem_padded {width n : Nat} {c : Char} (h : c ∈ padded width n) :
    c.isDigit = true := by
  rcases List.mem_append.1 h with hzero | hdigit
  · rw [List.eq_of_mem_replicate hzero]
    decide
  · exact isDigit_of_mem_toDigits hdigit

theorem natOfDigits_padded (width n : Nat) : natOfDigits (padded width n) = n := by
  unfold padded padLeft
  rw [natOfDigits_zeros_append, natOfDigits_toDigits]

theorem padded_ne_nil (width n : Nat) : padded width n ≠ [] := by
  unfold padded padLeft
  exact List.append_ne_nil_of_right_ne_nil _ Nat.toDigits_ne_nil

theorem length_padded {width n : Nat} (hwidth : 0 < width) (h : n < 10 ^ width) :
    (padded width n).length = width := by
  have hlength : (Nat.toDigits 10 n).length ≤ width :=
    (Nat.length_toDigits_le_iff (by decide) hwidth).2 h
  unfold padded
  rw [length_padLeft]
  omega

/-- A padded number starts with a digit, so with neither a blank nor a sign. -/
theorem exists_padded_eq_cons (width n : Nat) :
    ∃ c r, padded width n = c :: r ∧ c.isDigit = true := by
  obtain ⟨c, r, h⟩ := List.exists_cons_of_ne_nil (padded_ne_nil width n)
  exact ⟨c, r, h, isDigit_of_mem_padded (h ▸ List.mem_cons_self)⟩

theorem isWhiteSpace_of_isDigit {c : Char} (h : c.isDigit = true) : isWhiteSpace c = false := by
  have hc := toNat_of_isDigit h
  simp only [isWhiteSpace, Bool.or_eq_false_iff, Bool.and_eq_false_iff, decide_eq_false_iff_not]
  omega

theorem dropWhile_padded (width n : Nat) (rest : List Char) :
    (padded width n ++ rest).dropWhile isWhiteSpace = padded width n ++ rest := by
  obtain ⟨c, r, h, hc⟩ := exists_padded_eq_cons width n
  rw [h, List.cons_append, List.dropWhile_cons_of_neg (by simp [isWhiteSpace_of_isDigit hc])]

/-! ## Dates -/

theorem daysInMonth_le (year : Int) (month : Nat) : daysInMonth year month ≤ 31 := by
  unfold daysInMonth
  split
  · split <;> omega
  all_goals omega

namespace Date

theorem number?_padded {width n : Nat} (hwidth : 0 < width) (h : n < 10 ^ width)
    (rest : List Char) : number? width (padded width n ++ rest) = some (n, rest) := by
  have hlength := length_padded hwidth h
  have htake : (padded width n ++ rest).take width = padded width n := by
    rw [List.take_append_of_le_length (by omega), List.take_of_length_le (by omega)]
  have hdigits : (padded width n).takeWhile Char.isDigit = padded width n :=
    List.takeWhile_eq_self_iff.2 fun c hc => isDigit_of_mem_padded hc
  have hempty : (padded width n).isEmpty = false := by
    rw [List.isEmpty_eq_false_iff]
    exact padded_ne_nil width n
  simp only [number?, dropWhile_padded, htake, hdigits, hempty, natOfDigits_padded,
    Bool.false_eq_true, if_false, List.drop_left]

theorem year?_yearText {year : Int} {rest : List Char}
    (hrest : ∀ c ∈ rest.head?, c.isDigit = false) :
    year? (yearText year ++ rest) = some (year, rest) := by
  have hspan (n : Nat) : spanDigits (padded 4 n ++ rest) = (padded 4 n, rest) :=
    spanDigits_written (fun c hc => isDigit_of_mem_padded hc) hrest
  have hempty (n : Nat) : (padded 4 n).isEmpty = false := by
    rw [List.isEmpty_eq_false_iff]
    exact padded_ne_nil 4 n
  by_cases hfour : 0 ≤ year ∧ year ≤ 9999
  · have hcast : ((year.toNat : Nat) : Int) = year := by omega
    obtain ⟨c, r, hcons, hc⟩ := exists_padded_eq_cons 4 year.toNat
    have hnumber := number?_padded (n := year.toNat) (by decide : 0 < 4) (by omega) rest
    rw [yearText, if_pos hfour]
    unfold year?
    rw [dropWhile_padded]
    rw [hcons, List.cons_append] at hnumber ⊢
    -- A year of four digits starts with a digit, so no sign is taken from it.
    split
    · rename_i heq
      cases heq
      exact absurd hc (by decide)
    · rename_i heq
      cases heq
      exact absurd hc (by decide)
    · rw [hnumber, Option.map_some]
      simp only [hcast]
  · rw [yearText, if_neg hfour]
    by_cases hneg : year < 0
    · have habs : -((year.natAbs : Nat) : Int) = year := by omega
      have hdrop : ('-' :: (padded 4 year.natAbs ++ rest)).dropWhile isWhiteSpace
          = '-' :: (padded 4 year.natAbs ++ rest) := rfl
      simp only [year?, hneg, if_true, List.cons_append, hdrop, hspan, hempty,
        natOfDigits_padded, habs, Bool.false_eq_true, if_false]
    · have habs : ((year.natAbs : Nat) : Int) = year := by omega
      have hdrop : ('+' :: (padded 4 year.natAbs ++ rest)).dropWhile isWhiteSpace
          = '+' :: (padded 4 year.natAbs ++ rest) := rfl
      simp only [year?, hneg, if_false, List.cons_append, hdrop, hspan, hempty,
        natOfDigits_padded, habs, Bool.false_eq_true]

/-- The text of a date reads back as that date. -/
theorem read?_text (d : Date) : read? d.text = some d := by
  obtain ⟨year, month, day, hvalid⟩ := d
  have hmonth : month ≤ 12 := hvalid.2.1.2
  have hday : day ≤ daysInMonth year month := hvalid.2.2.2
  have hlength := daysInMonth_le year month
  have hyear : year? (yearText year ++ '-' :: (padded 2 month ++ '-' :: padded 2 day))
      = some (year, '-' :: (padded 2 month ++ '-' :: padded 2 day)) := year?_yearText (by simp)
  have hmonth' := number?_padded (n := month) (by decide : 0 < 2) (by omega) ('-' :: padded 2 day)
  have hday' := number?_padded (n := day) (by decide : 0 < 2) (by omega) []
  rw [List.append_nil] at hday'
  have hparts : ofParts? year month day = some ⟨year, month, day, hvalid⟩ := dif_pos hvalid
  simp [read?, text, chars, hyear, hmonth', hday', hparts]

end Date

/-! ## Instants -/

namespace Instant

/-- An instant has less than a second of nanoseconds, or less than two in a leap second, which
only the last second of a minute can be. -/
def Valid (t : Instant) : Prop :=
  t.nanos < 2000000000 ∧ (1000000000 ≤ t.nanos → t.seconds % 60 = 59)

theorem nanosOf_lt {digits : List Char} (h : ∀ c ∈ digits, c.isDigit = true) :
    nanosOf digits < 1000000000 := by
  have hkept : ∀ c ∈ digits.take 9, c.isDigit = true := fun c hc => h c (List.mem_of_mem_take hc)
  have hlength : (digits.take 9).length ≤ 9 := List.length_take_le 9 digits
  calc nanosOf digits
      < 10 ^ (digits.take 9).length * 10 ^ (9 - (digits.take 9).length) :=
        Nat.mul_lt_mul_of_pos_right (natOfDigits_lt hkept) (Nat.pow_pos (by decide))
    _ = 10 ^ 9 := by rw [← Nat.pow_add, Nat.add_sub_cancel' hlength]
    _ = 1000000000 := by decide

theorem fraction?_lt {cs rest : List Char} {nanos : Nat} (h : fraction? cs = some (nanos, rest)) :
    nanos < 1000000000 := by
  unfold fraction? at h
  split at h
  · rename_i r
    simp only [Option.ite_none_left_eq_some, Option.some.injEq, Prod.mk.injEq] at h
    rw [← h.2.1]
    exact nanosOf_lt fun c hc => List.all_eq_true.1 List.all_takeWhile c hc
  · simp only [Option.some.injEq, Prod.mk.injEq] at h
    omega

/-- An offset is a whole number of minutes. -/
theorem offsetSeconds?_minutes {cs rest : List Char} {offset : Int}
    (h : offsetSeconds? cs = some (offset, rest)) : offset % 60 = 0 := by
  simp only [offsetSeconds?, Option.bind_eq_bind, Option.bind_eq_some_iff] at h
  obtain ⟨⟨hours, afterHours⟩, -, h⟩ := h
  split at h
  · obtain ⟨⟨minutes, _⟩, -, h⟩ := Option.bind_eq_some_iff.1 h
    simp only [Option.ite_none_right_eq_some, Option.some.injEq, Prod.mk.injEq] at h
    omega
  · cases h

theorem offset?_minutes {cs rest : List Char} {offset : Int}
    (h : offset? cs = some (offset, rest)) : offset % 60 = 0 := by
  unfold offset? at h
  split at h
  · simp at h; omega
  · simp at h; omega
  · exact offsetSeconds?_minutes h
  · obtain ⟨⟨s, _⟩, hs, heq⟩ := Option.map_eq_some_iff.1 h
    cases heq
    have := offsetSeconds?_minutes hs
    omega
  · obtain ⟨⟨s, _⟩, hs, heq⟩ := Option.map_eq_some_iff.1 h
    cases heq
    have := offsetSeconds?_minutes hs
    omega
  · cases h

/-- What an instant that was read from a text consists of. -/
theorem read?_parts {s : String} {t : Instant} (h : read? s = some t) :
    ∃ (days offset : Int) (hour minute second nanos : Nat), offset % 60 = 0 ∧ second ≤ 60 ∧
      nanos < 1000000000 ∧
      t.seconds = days * 86400 + ((hour * 60 + minute) * 60 + min second 59 : Int) - offset ∧
      t.nanos = if second = 60 then nanos + 1000000000 else nanos := by
  simp only [read?, Option.bind_eq_bind] at h
  -- Part by part: a number, and the separator behind it, without which nothing is read.
  obtain ⟨⟨year, afterYear⟩, -, h⟩ := Option.bind_eq_some_iff.1 h
  split at h
  case h_2 => cases h
  obtain ⟨⟨month, afterMonth⟩, -, h⟩ := Option.bind_eq_some_iff.1 h
  split at h
  case h_2 => cases h
  obtain ⟨⟨day, afterDay⟩, -, h⟩ := Option.bind_eq_some_iff.1 h
  split at h
  case h_2 => cases h
  obtain ⟨⟨hour, afterHour⟩, -, h⟩ := Option.bind_eq_some_iff.1 h
  split at h
  case h_2 => cases h
  obtain ⟨⟨minute, afterMinute⟩, -, h⟩ := Option.bind_eq_some_iff.1 h
  split at h
  case h_2 => cases h
  obtain ⟨⟨second, afterSecond⟩, -, h⟩ := Option.bind_eq_some_iff.1 h
  obtain ⟨⟨nanos, afterFraction⟩, hnanos, h⟩ := Option.bind_eq_some_iff.1 h
  obtain ⟨⟨offset, _ | ⟨c, rest⟩⟩, hoffset, h⟩ := Option.bind_eq_some_iff.1 h
  case cons => cases h
  obtain ⟨date, -, h⟩ := Option.bind_eq_some_iff.1 h
  simp only [Option.ite_none_right_eq_some, Option.some.injEq] at h
  obtain ⟨⟨-, -, -, hsecond⟩, rfl⟩ := h
  exact ⟨_, _, _, _, _, _, offset?_minutes hoffset, hsecond, fraction?_lt hnanos, rfl, rfl⟩

/-- An instant that was read from a text is valid. -/
theorem read?_valid {s : String} {t : Instant} (h : read? s = some t) : t.Valid := by
  obtain ⟨days, offset, hour, minute, second, nanos, hoffset, hsecond, hnanos, hseconds, ht⟩ :=
    read?_parts h
  by_cases hleap : second = 60
  · rw [if_pos hleap] at ht
    exact ⟨by omega, fun _ => by omega⟩
  · rw [if_neg hleap] at ht
    exact ⟨by omega, fun _ => by omega⟩

theorem digits?_padded {width n : Nat} (hwidth : 0 < width) (h : n < 10 ^ width)
    (rest : List Char) : digits? width (padded width n ++ rest) = some (n, rest) := by
  have hlength := length_padded hwidth h
  have htake : (padded width n ++ rest).take width = padded width n := by
    rw [List.take_append_of_le_length (by omega), List.take_of_length_le (by omega)]
  have hdrop : (padded width n ++ rest).drop width = rest := by
    rw [List.drop_append_of_le_length (by omega), List.drop_of_length_le (by omega),
      List.nil_append]
  have hall : (padded width n).all Char.isDigit = true :=
    List.all_eq_true.2 fun c hc => isDigit_of_mem_padded hc
  simp [digits?, htake, hdrop, hall, hlength, natOfDigits_padded]

theorem nanosOf_padded {width n : Nat} (hwidth : 0 < width) (hle : width ≤ 9)
    (h : n < 10 ^ width) : nanosOf (padded width n) = n * 10 ^ (9 - width) := by
  have hlength := length_padded hwidth h
  have htake : (padded width n).take 9 = padded width n := List.take_of_length_le (by omega)
  simp only [nanosOf, htake, hlength, natOfDigits_padded]

theorem fraction?_padded {width n : Nat} (hwidth : 0 < width) (hle : width ≤ 9)
    (h : n < 10 ^ width) :
    fraction? ('.' :: (padded width n ++ ['Z'])) = some (n * 10 ^ (9 - width), ['Z']) := by
  have hspan : spanDigits (padded width n ++ ['Z']) = (padded width n, ['Z']) :=
    spanDigits_written (fun c hc => isDigit_of_mem_padded hc) (by simp)
  have hempty : (padded width n).isEmpty = false := by
    rw [List.isEmpty_eq_false_iff]
    exact padded_ne_nil width n
  simp only [fraction?, hspan, hempty, nanosOf_padded hwidth hle h, Bool.false_eq_true, if_false]

/-- The fraction of an instant reads back, whatever the number of its places. -/
theorem fraction?_fractionChars {nanos : Nat} (h : nanos < 1000000000) :
    fraction? (fractionChars nanos ++ ['Z']) = some (nanos, ['Z']) := by
  unfold fractionChars
  split
  · rename_i hzero
    rw [hzero]
    rfl
  split
  · rename_i hthree
    rw [List.cons_append, fraction?_padded (by decide) (by decide) (by omega)]
    congr 2
    omega
  split
  · rename_i hsix
    rw [List.cons_append, fraction?_padded (by decide) (by decide) (by omega)]
    congr 2
    omega
  · rw [List.cons_append, fraction?_padded (by decide) (by decide) (by omega)]
    congr 2
    omega

/-- The text of a valid instant in the years 0 to 9999 reads back as that instant. -/
theorem read?_text {t : Instant} (hvalid : t.Valid)
    (hyear : 0 ≤ (civil (t.seconds / 86400)).1 ∧ (civil (t.seconds / 86400)).1 ≤ 9999) :
    read? t.text = some t := by
  obtain ⟨seconds, nanos⟩ := t
  obtain ⟨hnanos, hleap⟩ := hvalid
  have hdate := civil_valid (seconds / 86400)
  have hnumber := dayNumber_civil (seconds / 86400)
  dsimp only at hyear hnanos hleap hdate hnumber
  unfold text chars
  dsimp only
  -- All that matters of the date is that it is one and that its number is the day.
  generalize civil (seconds / 86400) = date at hyear hdate hnumber ⊢
  obtain ⟨year, month, day⟩ := date
  dsimp only at hyear hdate hnumber ⊢
  have hmonth := hdate.1.2
  have hday := hdate.2.2
  have hlength := daysInMonth_le year month
  have hcast : ((year.toNat : Nat) : Int) = year := by omega
  have hparts : Date.ofParts? year month day = some ⟨year, month, day, ⟨by omega, hdate⟩⟩ :=
    dif_pos ⟨by omega, hdate⟩
  generalize htotal : (seconds % 86400).toNat = total
  -- A leap second is written as the second 60 and read as the 59th with a second more.
  have hsecond : total % 60 + nanos / 1000000000 ≤ 60 := by omega
  have hfour := digits?_padded (n := year.toNat) (by decide : 0 < 4) (by omega)
  have htwo (n : Nat) (h : n < 100) := digits?_padded (n := n) (by decide : 0 < 2) h
  have hfraction : fraction? (fractionChars (nanos % 1000000000) ++ ['Z'])
      = some (nanos % 1000000000, ['Z']) := fraction?_fractionChars (by omega)
  have hoffset : offset? ['Z'] = some (0, []) := rfl
  have hhour : total / 3600 ≤ 23 := by omega
  have hminute : total / 60 % 60 ≤ 59 := by omega
  simp only [read?, String.toList_ofList, yearText, if_pos hyear, List.append_assoc,
    List.cons_append, hfour, htwo month (by omega), htwo day (by omega),
    htwo (total / 3600) (by omega), htwo (total / 60 % 60) (by omega),
    htwo (total % 60 + nanos / 1000000000) (by omega), hfraction, hoffset, hcast, hparts,
    hhour, hminute, hsecond, Option.bind_eq_bind, Option.bind_some]
  rw [if_pos (by simp)]
  congr 2
  · omega
  · split <;> omega

/-- The year of an instant in universal time. -/
def year (t : Instant) : Int := (civil (t.seconds / 86400)).1

/-- A text that starts with no digit, as with a sign, writes no instant. -/
theorem read?_eq_none {c : Char} (hc : c.isDigit = false) (cs : List Char) :
    read? (String.ofList (c :: cs)) = none := by
  have hdigits : digits? 4 (c :: cs) = none := by simp [digits?, hc]
  simp only [read?, String.toList_ofList, hdigits, Option.bind_eq_bind, Option.bind_none]

/-- The text of a valid instant reads back as that instant in the years 0 to 9999. In any other year
it starts with a sign and is not read. -/
theorem read?_text_eq {t : Instant} (hvalid : t.Valid) :
    read? t.text = if 0 ≤ t.year ∧ t.year ≤ 9999 then some t else none := by
  by_cases hyear : 0 ≤ t.year ∧ t.year ≤ 9999
  · rw [if_pos hyear]
    exact read?_text hvalid hyear
  · rw [if_neg hyear]
    have hsigned : yearText t.year
        = (if t.year < 0 then '-' else '+') :: padded 4 t.year.natAbs := if_neg hyear
    unfold text chars
    dsimp only
    unfold year at hsigned hyear
    rw [hsigned]
    simp only [List.append_assoc, List.cons_append]
    refine read?_eq_none ?_ _
    split <;> decide

end Instant

end Criteria.Calendar
