import Criteria.Calendar.Instant
import Mathlib

/-! # Day numbers and calendar days

`civil` turns every day number into a day of the calendar (`civil_valid`), and `dayNumber` turns
that day back into its number (`dayNumber_civil`). Days are counted within an era of 400 years
that starts in March; the year of a day is found by leaving out the leap days before it.
-/

set_option autoImplicit false

namespace Criteria.Calendar

/-! ## Years of an era -/

/-- The year of an era that a day of the era falls in. -/
def yearOfDay (day : Int) : Int := (day - day / 1460 + day / 36524 - day / 146096) / 365

/-- The first day of a year of an era. -/
def firstDay (year : Int) : Int := 365 * year + year / 4 - year / 100

theorem yearOfDay_mono {a b : Int} (h : a ≤ b) : yearOfDay a ≤ yearOfDay b := by
  have hcentury : a / 36524 ≤ b / 36524 := Int.ediv_le_ediv (by decide) h
  have ha : a / 146096 = a / 36524 / 4 := by rw [Int.ediv_ediv_of_nonneg (by decide)]; rfl
  have hb : b / 146096 = b / 36524 / 4 := by rw [Int.ediv_ediv_of_nonneg (by decide)]; rfl
  have hfour : a - a / 1460 ≤ b - b / 1460 := by omega
  unfold yearOfDay
  rw [ha, hb]
  exact Int.ediv_le_ediv (by decide) (by omega)

/-- The first and the last day of a year fall in that year. -/
theorem yearOfDay_ends :
    ∀ year : Fin 400, yearOfDay (firstDay year) = year ∧
      yearOfDay (firstDay (year + 1) - 1) = year := by
  decide +kernel

/-- From one first day to the next there are 365 days, or 366 before a leap year. -/
theorem firstDay_succ :
    ∀ year : Fin 400, firstDay (year + 1) - firstDay year ≤ 366 ∧
      (firstDay (year + 1) - firstDay year = 366 → isLeapYear (year + 1) = true) := by
  decide +kernel

/-- A day of an era falls between the first days of its year and of the next one. Only the last
day of the era, the leap day of its last year, lies behind what `firstDay` counts. -/
theorem yearOfDay_bounds {day : Int} (h₀ : 0 ≤ day) (h₁ : day < 146097) :
    (0 ≤ yearOfDay day ∧ yearOfDay day ≤ 399) ∧ firstDay (yearOfDay day) ≤ day ∧
      (yearOfDay day < 399 → day < firstDay (yearOfDay day + 1)) := by
  have hlow : 0 ≤ yearOfDay day := yearOfDay_mono (a := 0) h₀
  have hhigh : yearOfDay day ≤ 399 := yearOfDay_mono (b := 146096) (by omega)
  refine ⟨⟨hlow, hhigh⟩, ?_, ?_⟩
  -- Were the day in front of its year, it would fall in the year before.
  · by_contra hday
    have hpos : 0 < yearOfDay day := by
      by_contra hz
      have hzero : yearOfDay day = 0 := by omega
      rw [hzero] at hday
      exact hday h₀
    obtain ⟨-, hend⟩ := yearOfDay_ends ⟨(yearOfDay day - 1).toNat, by omega⟩
    have hcast : (((yearOfDay day - 1).toNat : Nat) : Int) = yearOfDay day - 1 := by omega
    simp only [hcast, Int.sub_add_cancel] at hend
    have hmono := yearOfDay_mono (a := day) (b := firstDay (yearOfDay day) - 1) (by omega)
    omega
  · intro hlt
    by_contra hday
    obtain ⟨hstart, -⟩ := yearOfDay_ends ⟨(yearOfDay day + 1).toNat, by omega⟩
    have hcast : (((yearOfDay day + 1).toNat : Nat) : Int) = yearOfDay day + 1 := by omega
    simp only [hcast] at hstart
    have hmono := yearOfDay_mono (a := firstDay (yearOfDay day + 1)) (b := day) (by omega)
    omega

/-- A year has 365 days, and a 366th only when it ends with a leap day. -/
theorem day_sub_firstDay {day : Int} (h₀ : 0 ≤ day) (h₁ : day < 146097) :
    0 ≤ day - firstDay (yearOfDay day) ∧ day - firstDay (yearOfDay day) ≤ 365 ∧
      (day - firstDay (yearOfDay day) = 365 →
        isLeapYear (yearOfDay day + 1) = true) := by
  obtain ⟨⟨hlow, hhigh⟩, hstart, hend⟩ := yearOfDay_bounds h₀ h₁
  refine ⟨by omega, ?_⟩
  by_cases hlast : yearOfDay day < 399
  · have hday := hend hlast
    obtain ⟨hlength, hleap⟩ := firstDay_succ ⟨(yearOfDay day).toNat, by omega⟩
    have hcast : (((yearOfDay day).toNat : Nat) : Int) = yearOfDay day := by omega
    simp only [hcast] at hlength hleap
    exact ⟨by omega, fun h => hleap (by omega)⟩
  -- The last year of an era is the one that ends with its leap day.
  · have hyear : yearOfDay day = 399 := by omega
    have hfirst : firstDay 399 = 145731 := by decide
    rw [hyear, hfirst]
    exact ⟨by omega, fun _ => by decide⟩

theorem isLeapYear_add_eras (year eras : Int) :
    isLeapYear (year + eras * 400) = isLeapYear year := by
  have h₁ : (year + eras * 400) % 4 = year % 4 := by omega
  have h₂ : (year + eras * 400) % 100 = year % 100 := by omega
  have h₃ : (year + eras * 400) % 400 = year % 400 := by omega
  unfold isLeapYear
  rw [h₁, h₂, h₃]

/-! ## Months -/

/-- The date of a day of a year that starts in March. -/
def dateOfDay (year day : Int) : Int × Nat × Nat :=
  let shifted := (5 * day + 2) / 153
  let month := if shifted < 10 then shifted + 3 else shifted - 9
  (if month ≤ 2 then year + 1 else year, month.toNat, (day - (153 * shifted + 2) / 5 + 1).toNat)

theorem civil_eq (n : Int) :
    civil n = dateOfDay (yearOfDay ((n + 719468) % 146097) + (n + 719468) / 146097 * 400)
      ((n + 719468) % 146097 - firstDay (yearOfDay ((n + 719468) % 146097))) := rfl

/-- A day of a year that starts in March lies in one of twelve months. -/
theorem shifted_cases {day : Int} (h₀ : 0 ≤ day) (h₁ : day ≤ 365) :
    (5 * day + 2) / 153 = 0 ∨ (5 * day + 2) / 153 = 1 ∨ (5 * day + 2) / 153 = 2 ∨
      (5 * day + 2) / 153 = 3 ∨ (5 * day + 2) / 153 = 4 ∨ (5 * day + 2) / 153 = 5 ∨
      (5 * day + 2) / 153 = 6 ∨ (5 * day + 2) / 153 = 7 ∨ (5 * day + 2) / 153 = 8 ∨
      (5 * day + 2) / 153 = 9 ∨ (5 * day + 2) / 153 = 10 ∨ (5 * day + 2) / 153 = 11 := by
  omega

/-- The date of a day of a year is a day of the calendar. February, the last month, is the only
one whose length depends on the year. -/
theorem dateOfDay_valid {year day : Int} (h₀ : 0 ≤ day) (h₁ : day ≤ 365)
    (hleap : day = 365 → isLeapYear (year + 1) = true) :
    (1 ≤ (dateOfDay year day).2.1 ∧ (dateOfDay year day).2.1 ≤ 12) ∧
      1 ≤ (dateOfDay year day).2.2 ∧
      (dateOfDay year day).2.2 ≤ daysInMonth (dateOfDay year day).1 (dateOfDay year day).2.1 := by
  unfold dateOfDay
  rcases shifted_cases h₀ h₁ with h | h | h | h | h | h | h | h | h | h | h | h
  case inr.inr.inr.inr.inr.inr.inr.inr.inr.inr.inr =>
    rw [h]
    simp [daysInMonth]
    by_cases hday : day = 365
    · simp [hleap hday, hday]
    · split <;> omega
  all_goals
    rw [h]
    simp [daysInMonth]
    omega

/-- The number of the date of a day of a year. -/
theorem dayNumber_dateOfDay {year day : Int} (h₀ : 0 ≤ day) (h₁ : day ≤ 365) :
    dayNumber (dateOfDay year day).1 (dateOfDay year day).2.1 (dateOfDay year day).2.2
      = year / 400 * 146097 + firstDay (year % 400) + day - 719468 := by
  unfold dateOfDay dayNumber firstDay
  rcases shifted_cases h₀ h₁ with h | h | h | h | h | h | h | h | h | h | h | h
  all_goals
    rw [h]
    simp
    omega

/-! ## All days -/

/-- The date of a day number is a day of the calendar. -/
theorem civil_valid (n : Int) :
    (1 ≤ (civil n).2.1 ∧ (civil n).2.1 ≤ 12) ∧ 1 ≤ (civil n).2.2 ∧
      (civil n).2.2 ≤ daysInMonth (civil n).1 (civil n).2.1 := by
  have h₀ : 0 ≤ (n + 719468) % 146097 := Int.emod_nonneg _ (by decide)
  have h₁ : (n + 719468) % 146097 < 146097 := Int.emod_lt_of_pos _ (by decide)
  obtain ⟨hday₀, hday₁, hleap⟩ := day_sub_firstDay h₀ h₁
  rw [civil_eq]
  refine dateOfDay_valid hday₀ hday₁ ?_
  intro h
  rw [Int.add_right_comm, isLeapYear_add_eras]
  exact hleap h

/-- The day number of the date of a day number is that day number. -/
theorem dayNumber_civil (n : Int) :
    dayNumber (civil n).1 (civil n).2.1 (civil n).2.2 = n := by
  have h₀ : 0 ≤ (n + 719468) % 146097 := Int.emod_nonneg _ (by decide)
  have h₁ : (n + 719468) % 146097 < 146097 := Int.emod_lt_of_pos _ (by decide)
  obtain ⟨hday₀, hday₁, -⟩ := day_sub_firstDay h₀ h₁
  obtain ⟨⟨hlow, hhigh⟩, -, -⟩ := yearOfDay_bounds h₀ h₁
  rw [civil_eq, dayNumber_dateOfDay hday₀ hday₁]
  have hera : (yearOfDay ((n + 719468) % 146097) + (n + 719468) / 146097 * 400) / 400
      = (n + 719468) / 146097 := by omega
  have hyear : (yearOfDay ((n + 719468) % 146097) + (n + 719468) / 146097 * 400) % 400
      = yearOfDay ((n + 719468) % 146097) := by omega
  rw [hera, hyear]
  omega

end Criteria.Calendar
