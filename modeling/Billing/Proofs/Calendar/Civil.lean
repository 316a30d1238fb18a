import Mathlib.Tactic.IntervalCases
import Billing.Calendar.Date

/-!
# Day numbers and dates

The year, month and day of a day number exist, and they have that day number. Years begin in March
for this, so that a leap day is the last of its year. An era of 400 such years has 146097 days. A
century has 36524, four years have 1461 and a year has 365, but the last century of an era and the
last of four years have a day more, and the last four years of the other centuries a day less.
-/

namespace Billing.Civil

/-! ## Years of an era -/

/-- The year of an era, by the days of the era before. -/
def yearOfEra (dayOfEra : Int) : Int :=
  (dayOfEra - dayOfEra / 1460 + dayOfEra / 36524 - dayOfEra / 146096) / 365

/-- The days of an era before its year `y`. -/
def daysBefore (y : Int) : Int := 365 * y + y / 4 - y / 100

/-- A day of an era: so many centuries, groups of four years, years and days have passed. -/
structure Passed (c q y r : Int) : Prop where
  centuries : 0 ≤ c ∧ c ≤ 3
  fours : 0 ≤ q ∧ q ≤ 24
  years : 0 ≤ y ∧ y ≤ 3
  days : 0 ≤ r ∧ r ≤ 365
  /-- The last day of a leap year. -/
  leap : r = 365 → y = 3 ∧ (q = 24 → c = 3)

variable {c q y r : Int}

def daysPassed (c q y r : Int) : Int := 36524 * c + (1461 * q + (365 * y + r))

theorem exists_passed {d : Int} (h : 0 ≤ d ∧ d < 146097) :
    ∃ c q y r, Passed c q y r ∧ daysPassed c q y r = d := by
  obtain ⟨c, dc, rfl, hc, hdc, hlast⟩ : ∃ c dc : Int, d = 36524 * c + dc ∧ (0 ≤ c ∧ c ≤ 3) ∧
      (0 ≤ dc ∧ dc ≤ 36524) ∧ (dc = 36524 → c = 3) := by
    by_cases hd : d = 146096
    · exact ⟨3, 36524, by omega⟩
    · exact ⟨d / 36524, d % 36524, by omega⟩
  obtain ⟨q, dq, rfl, hq, hdq⟩ : ∃ q dq : Int, dc = 1461 * q + dq ∧ (0 ≤ q ∧ q ≤ 24) ∧
      (0 ≤ dq ∧ dq ≤ 1460) := ⟨dc / 1461, dc % 1461, by omega⟩
  obtain ⟨y, r, rfl, hy, hr, hleap⟩ : ∃ y r : Int, dq = 365 * y + r ∧ (0 ≤ y ∧ y ≤ 3) ∧
      (0 ≤ r ∧ r ≤ 365) ∧ (r = 365 → y = 3) := by
    by_cases hd : dq = 1460
    · exact ⟨3, 365, by omega⟩
    · exact ⟨dq / 365, dq % 365, by omega⟩
  exact ⟨c, q, y, r, ⟨hc, hq, hy, hr, fun h => ⟨hleap h, fun hq => hlast (by omega)⟩⟩, rfl⟩

theorem Passed.inFour (h : Passed c q y r) :
    0 ≤ 365 * y + r ∧ 365 * y + r ≤ 1460 ∧ (365 * y + r = 1460 → q = 24 → c = 3) := by
  obtain ⟨-, -, hy, hr, hleap⟩ := h
  omega

theorem Passed.inCentury (h : Passed c q y r) :
    0 ≤ 1461 * q + (365 * y + r) ∧ 1461 * q + (365 * y + r) ≤ 36524 ∧
      (1461 * q + (365 * y + r) = 36524 → c = 3) := by
  have hq := h.fours
  have hs := h.inFour
  omega

/-- The last day of an era belongs to no fifth century. -/
theorem Passed.centuries_eq (h : Passed c q y r) :
    daysPassed c q y r / 36524 - daysPassed c q y r / 146096 = c := by
  have hc := h.centuries
  have hs := h.inCentury
  rw [daysPassed]
  generalize 1461 * q + (365 * y + r) = s at hs
  by_cases hlast : s = 36524
  · obtain rfl := hs.2.2 hlast
    omega
  · have hcentury : (36524 * c + s) / 36524 = c := by omega
    have hera : (36524 * c + s) / 146096 = 0 := by omega
    omega

/-- The leap days of an era that have passed, where that of the current year counts at its end. -/
theorem Passed.exists_leapDays (h : Passed c q y r) :
    ∃ e, daysPassed c q y r / 1460 = 25 * c + q + e ∧ 0 ≤ r - e ∧ r - e ≤ 364 := by
  obtain ⟨hc, hq, hy, hr, hleap⟩ := h
  refine ⟨(24 * c + q + (365 * y + r)) / 1460, ?_, ?_⟩
  · rw [daysPassed]
    omega
  · by_cases he : 24 * c + q + (365 * y + r) < 1460
    · have hzero : (24 * c + q + (365 * y + r)) / 1460 = 0 := by omega
      omega
    · have hone : (24 * c + q + (365 * y + r)) / 1460 = 1 := by omega
      omega

theorem Passed.yearOfEra_eq (h : Passed c q y r) :
    yearOfEra (daysPassed c q y r) = 100 * c + 4 * q + y := by
  obtain ⟨e, he, hlow, hhigh⟩ := h.exists_leapDays
  have hc := h.centuries_eq
  -- Without its leap days, the era has years of 365 days.
  have hsum : daysPassed c q y r - daysPassed c q y r / 1460 + daysPassed c q y r / 36524 -
      daysPassed c q y r / 146096 = 365 * (100 * c + 4 * q + y) + (r - e) := by
    rw [he]
    unfold daysPassed at hc ⊢
    omega
  rw [yearOfEra, hsum]
  omega

theorem Passed.daysBefore_eq (h : Passed c q y r) :
    daysBefore (100 * c + 4 * q + y) = 36524 * c + 1461 * q + 365 * y := by
  obtain ⟨hc, hq, hy, -, -⟩ := h
  have hfour : (100 * c + 4 * q + y) / 4 = 25 * c + q := by omega
  have hcentury : (100 * c + 4 * q + y) / 100 = c := by omega
  rw [daysBefore, hfour, hcentury]
  omega

/-- Every day of an era is in a year of the era, and only leap years have 366 days. -/
theorem dayOfYear_bounds {d : Int} (h : 0 ≤ d ∧ d < 146097) :
    (0 ≤ yearOfEra d ∧ yearOfEra d ≤ 399) ∧
      (0 ≤ d - daysBefore (yearOfEra d) ∧ d - daysBefore (yearOfEra d) ≤ 365) ∧
      (d - daysBefore (yearOfEra d) = 365 →
        (yearOfEra d + 1) % 4 = 0 ∧ ((yearOfEra d + 1) % 100 ≠ 0 ∨ yearOfEra d = 399)) := by
  obtain ⟨c, q, y, r, hp, rfl⟩ := exists_passed h
  have hday : daysPassed c q y r - daysBefore (100 * c + 4 * q + y) = r := by
    rw [hp.daysBefore_eq, daysPassed]
    omega
  rw [hp.yearOfEra_eq, hday]
  obtain ⟨hc, hq, hy, hr, hleap⟩ := hp
  refine ⟨by omega, hr, fun h365 => ?_⟩
  obtain ⟨rfl, hlast⟩ := hleap h365
  by_cases hq24 : q = 24
  · obtain rfl := hlast hq24
    omega
  · omega

/-! ## Months of a year -/

/-- The month of a day of the year, where March is month 0. -/
def monthOfYear (dayOfYear : Int) : Int := (5 * dayOfYear + 2) / 153

def daysBeforeMonth (m : Int) : Int := (153 * m + 2) / 5

/-- The number of a month, which counts from January. -/
def ofMarch (m : Int) : Int := if m < 10 then m + 3 else m - 9

theorem monthOfYear_bounds {d : Int} (h : 0 ≤ d ∧ d ≤ 365) :
    (0 ≤ monthOfYear d ∧ monthOfYear d ≤ 11) ∧ daysBeforeMonth (monthOfYear d) ≤ d := by
  unfold daysBeforeMonth monthOfYear
  omega

theorem daysInMonth_ofMarch {m : Int} (h : 0 ≤ m ∧ m ≤ 10) (y : Int) :
    daysInMonth y (ofMarch m) = daysBeforeMonth (m + 1) - daysBeforeMonth m := by
  obtain ⟨hlow, hhigh⟩ := h
  interval_cases m <;> rfl

/-- A day of the year is in its month; the leap day needs a leap year. -/
theorem dayOfMonth_le {d y : Int} (h : 0 ≤ d ∧ d ≤ 365) (hleap : d = 365 → isLeap y = true) :
    d - daysBeforeMonth (monthOfYear d) + 1 ≤ daysInMonth y (ofMarch (monthOfYear d)) := by
  have hm := (monthOfYear_bounds h).1
  have hd : d < daysBeforeMonth (monthOfYear d + 1) := by
    unfold daysBeforeMonth monthOfYear
    omega
  by_cases hlast : monthOfYear d = 11
  · -- February is the last month, and the only one whose length hangs on the year.
    rw [hlast]
    show d - 337 + 1 ≤ if isLeap y = true then 29 else 28
    split
    · omega
    · rename_i hy
      have hne : d ≠ 365 := fun h365 => hy (hleap h365)
      omega
  · rw [daysInMonth_ofMarch (by omega)]
    omega

theorem ofMarch_bounds {m : Int} (h : 0 ≤ m ∧ m ≤ 11) :
    1 ≤ ofMarch m ∧ ofMarch m ≤ 12 ∧ (ofMarch m ≤ 2 ↔ 10 ≤ m) := by
  unfold ofMarch
  split <;> omega

/-! ## Days of a year -/

/-- The date of a day of a year that begins in March. -/
def ofYearDay (y d : Int) : Civil :=
  let month := ofMarch (monthOfYear d)
  ⟨y + (if month ≤ 2 then 1 else 0), month, d - daysBeforeMonth (monthOfYear d) + 1⟩

/-- A day of a year is a date, if it is not the leap day of a year without one. -/
theorem valid_ofYearDay {y d : Int} (h : 0 ≤ d ∧ d ≤ 365)
    (hleap : d = 365 → isLeap (y + 1) = true) : (ofYearDay y d).valid = true := by
  obtain ⟨hm, hbefore⟩ := monthOfYear_bounds h
  obtain ⟨hlow, hhigh, hnext⟩ := ofMarch_bounds hm
  have hfirst : 1 ≤ d - daysBeforeMonth (monthOfYear d) + 1 := by omega
  refine decide_eq_true ⟨hlow, hhigh, hfirst, dayOfMonth_le h fun h365 => ?_⟩
  have hmonth : monthOfYear d = 11 := by rw [h365]; rfl
  have hyear : (ofYearDay y d).year = y + 1 := by
    rw [ofYearDay, if_pos (hnext.mpr (by omega))]
  rw [hyear]
  exact hleap h365

theorem dayNumber_ofYearDay {y d : Int} (h : 0 ≤ d ∧ d ≤ 365) :
    (ofYearDay y d).dayNumber =
      y / 400 * 146097 + daysBefore (y - y / 400 * 400) + d - 719468 := by
  have hm := (monthOfYear_bounds h).1
  obtain ⟨hlow, hhigh, hnext⟩ := ofMarch_bounds hm
  have hyear : (if (ofYearDay y d).month ≤ 2 then (ofYearDay y d).year - 1
      else (ofYearDay y d).year) = y := by
    simp only [ofYearDay]
    split <;> omega
  have hmonth : (if 2 < (ofYearDay y d).month then (ofYearDay y d).month - 3
      else (ofYearDay y d).month + 9) = monthOfYear d := by
    simp only [ofYearDay, ofMarch]
    split <;> split <;> omega
  simp only [dayNumber, hyear, hmonth]
  simp only [ofYearDay, daysBefore, daysBeforeMonth]
  omega

/-! ## Day numbers -/

theorem isLeap_iff {y : Int} : isLeap y = true ↔ y % 4 = 0 ∧ (y % 100 ≠ 0 ∨ y % 400 = 0) := by
  simp [isLeap]

/-- A day number is that of a day of a year of an era. -/
theorem exists_ofDayNumber (n : Int) :
    ∃ era y d : Int, ofDayNumber n = ofYearDay (y + era * 400) d ∧
      n = era * 146097 + daysBefore y + d - 719468 ∧ (0 ≤ y ∧ y ≤ 399) ∧ (0 ≤ d ∧ d ≤ 365) ∧
      (d = 365 → isLeap (y + era * 400 + 1) = true) := by
  obtain ⟨era, dayOfEra, hn, hera, heq⟩ : ∃ era dayOfEra : Int,
      n = era * 146097 + dayOfEra - 719468 ∧ (0 ≤ dayOfEra ∧ dayOfEra < 146097) ∧
        ofDayNumber n =
          ofYearDay (yearOfEra dayOfEra + era * 400) (dayOfEra - daysBefore (yearOfEra dayOfEra)) :=
    ⟨(n + 719468) / 146097, n + 719468 - (n + 719468) / 146097 * 146097, by omega, by omega, rfl⟩
  obtain ⟨hy, hd, hleap⟩ := dayOfYear_bounds hera
  generalize yearOfEra dayOfEra = y at hy hd hleap heq
  refine ⟨era, y, dayOfEra - daysBefore y, heq, by omega, hy, hd, fun h365 => isLeap_iff.mpr ?_⟩
  obtain ⟨hfour, hcentury⟩ := hleap h365
  omega

theorem valid_ofDayNumber (n : Int) : (ofDayNumber n).valid = true := by
  obtain ⟨era, y, d, hn, -, -, hd, hleap⟩ := exists_ofDayNumber n
  rw [hn]
  exact valid_ofYearDay hd hleap

theorem dayNumber_ofDayNumber (n : Int) : (ofDayNumber n).dayNumber = n := by
  obtain ⟨era, y, d, hn, hsum, hy, hd, -⟩ := exists_ofDayNumber n
  have hera : (y + era * 400) / 400 = era := by omega
  rw [hn, dayNumber_ofYearDay hd, hera, Int.add_sub_cancel]
  exact hsum.symm

end Billing.Civil
