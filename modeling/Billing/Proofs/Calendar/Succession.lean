import Mathlib.Tactic.IntervalCases
import Billing.Proofs.Calendar.Civil

/-!
# One day after another

The Gregorian calendar says which day comes after a day. Counted from 1 January 1970 in this way, on
and back, every day number has one date, and that is the date that is computed from it.
-/

namespace Billing.Civil

/-- The day after. -/
def tomorrow (c : Civil) : Civil :=
  if c.day < daysInMonth c.year c.month then { c with day := c.day + 1 }
  else if c.month < 12 then ⟨c.year, c.month + 1, 1⟩
  else ⟨c.year + 1, 1, 1⟩

/-- A date is so many days after 1 January 1970. -/
inductive Counted : Int → Civil → Prop where
  | epoch : Counted 0 ⟨1970, 1, 1⟩
  | next {n : Int} {c : Civil} (h : Counted n c) : Counted (n + 1) c.tomorrow
  | last {n : Int} {c : Civil} (valid : c.valid = true) (h : Counted (n + 1) c.tomorrow) :
      Counted n c

variable {y d n : Int} {c c' : Civil}

/-! ## Days of a year -/

/-- The next day is in the same month, or it is the first day of the next. -/
theorem monthOfYear_succ (d : Int) :
    monthOfYear (d + 1) = monthOfYear d ∧ d + 1 < daysBeforeMonth (monthOfYear d + 1) ∨
      monthOfYear (d + 1) = monthOfYear d + 1 ∧ d + 1 = daysBeforeMonth (monthOfYear d + 1) := by
  unfold daysBeforeMonth monthOfYear
  omega

theorem ofYearDay_of_month {m : Int} (h : monthOfYear d = m) :
    ofYearDay y d =
      ⟨y + (if ofMarch m ≤ 2 then 1 else 0), ofMarch m, d - daysBeforeMonth m + 1⟩ := by
  rw [ofYearDay, h]

/-- The first day of the next month comes after the last day of a month, where the year begins in
March. -/
theorem ofMarch_succ {m : Int} (h : 0 ≤ m ∧ m ≤ 10) (y : Int) :
    (if ofMarch m < 12 then Civil.mk (y + (if ofMarch m ≤ 2 then 1 else 0)) (ofMarch m + 1) 1
      else ⟨y + (if ofMarch m ≤ 2 then 1 else 0) + 1, 1, 1⟩) =
    ⟨y + (if ofMarch (m + 1) ≤ 2 then 1 else 0), ofMarch (m + 1), 1⟩ := by
  obtain ⟨hlow, hhigh⟩ := h
  interval_cases m <;> simp [ofMarch]

theorem tomorrow_of_lt {m : Int} (h : d < daysInMonth y m) :
    tomorrow ⟨y, m, d⟩ = ⟨y, m, d + 1⟩ := if_pos h

theorem tomorrow_of_last {m : Int} (h : ¬ d < daysInMonth y m) :
    tomorrow ⟨y, m, d⟩ = if m < 12 then ⟨y, m + 1, 1⟩ else ⟨y + 1, 1, 1⟩ := if_neg h

/-- Within a year that begins in March, the day after is the next day of the year. -/
theorem tomorrow_ofYearDay (h : 0 ≤ d) (hnext : d + 1 ≤ 365)
    (hleap : d + 1 = 365 → isLeap (y + 1) = true) :
    (ofYearDay y d).tomorrow = ofYearDay y (d + 1) := by
  have hm := (monthOfYear_bounds (d := d) (by omega)).1
  have hm' := (monthOfYear_bounds (d := d + 1) (by omega)).1
  have hsucc := monthOfYear_succ d
  rw [ofYearDay_of_month rfl]
  generalize monthOfYear d = m at hm hsucc
  by_cases hlast : m = 11
  · -- February is the last month, and the only one whose length hangs on the year.
    subst hlast
    have hsame : monthOfYear (d + 1) = 11 := by omega
    have hday : d - daysBeforeMonth 11 + 1 < daysInMonth (y + 1) 2 := by
      show d - 337 + 1 < if isLeap (y + 1) then 29 else 28
      split
      · omega
      · rename_i hy
        have hne : d + 1 ≠ 365 := fun h365 => hy (hleap h365)
        omega
    rw [ofYearDay_of_month hsame]
    refine (tomorrow_of_lt hday).trans ?_
    congr 1
    omega
  · have hmonth : 0 ≤ m ∧ m ≤ 10 := by omega
    have hdays := daysInMonth_ofMarch hmonth (y + (if ofMarch m ≤ 2 then 1 else 0))
    rcases hsucc with ⟨hsame, hlt⟩ | ⟨hnew, heq⟩
    · rw [tomorrow_of_lt (by omega), ofYearDay_of_month hsame]
      congr 1
      omega
    · rw [tomorrow_of_last (by omega), ofYearDay_of_month hnew, ofMarch_succ hmonth, heq]
      congr 1
      omega

/-- The day after the last day of such a year is the first of March. -/
theorem tomorrow_ofYearDay_last (h : d = if isLeap (y + 1) then 365 else 364) :
    (ofYearDay y d).tomorrow = ofYearDay (y + 1) 0 := by
  have hmonth : monthOfYear d = 11 := by
    unfold monthOfYear
    split at h <;> omega
  have hday : ¬ d - daysBeforeMonth 11 + 1 < daysInMonth (y + 1) 2 := by
    show ¬ d - 337 + 1 < if isLeap (y + 1) then 29 else 28
    cases hy : isLeap (y + 1) <;> simp [hy] at h ⊢ <;> omega
  rw [ofYearDay_of_month hmonth, ofYearDay_of_month (show monthOfYear 0 = 0 from rfl)]
  refine (tomorrow_of_last hday).trans ?_
  show Civil.mk (y + 1) 3 1 = ⟨y + 1 + 0, 3, 1⟩
  rw [Int.add_zero]

/-! ## Day numbers -/

/-- The date of a day number, from its place in an era. -/
theorem ofDayNumber_of_yearDay {era : Int} (hy : 0 ≤ y ∧ y ≤ 399) (hd : 0 ≤ d ∧ d ≤ 365)
    (hleap : d = 365 → isLeap (y + era * 400 + 1) = true) :
    ofDayNumber (era * 146097 + daysBefore y + d - 719468) = ofYearDay (y + era * 400) d := by
  have hp : Passed (y / 100) (y % 100 / 4) (y % 4) d := by
    refine ⟨by omega, by omega, by omega, hd, fun h => ?_⟩
    have := isLeap_iff.mp (hleap h)
    omega
  have hsum : 100 * (y / 100) + 4 * (y % 100 / 4) + y % 4 = y := by omega
  have hbefore := hp.daysBefore_eq
  have hyear := hp.yearOfEra_eq
  rw [hsum] at hbefore hyear
  have hpassed : daysPassed (y / 100) (y % 100 / 4) (y % 4) d = daysBefore y + d := by
    unfold daysPassed
    omega
  rw [hpassed] at hyear
  have hbounds : 0 ≤ daysBefore y + d ∧ daysBefore y + d < 146097 := by
    unfold daysBefore
    by_cases h : d = 365
    · have := isLeap_iff.mp (hleap h)
      omega
    · omega
  have hera : (era * 146097 + daysBefore y + d - 719468 + 719468) / 146097 = era := by omega
  have hrest : era * 146097 + daysBefore y + d - 719468 + 719468 - era * 146097 =
      daysBefore y + d := by omega
  show ofYearDay (yearOfEra (_ - _ / 146097 * 146097) + _ / 146097 * 400)
    (_ - _ / 146097 * 146097 - daysBefore (yearOfEra (_ - _ / 146097 * 146097))) = _
  rw [hera, hrest, hyear]
  congr 1
  omega

/-- The days before the next year of an era, of which the first has the days of a year more. -/
theorem daysBefore_succ (era : Int) (hy : 0 ≤ y ∧ y < 399) :
    daysBefore (y + 1) =
      daysBefore y + (if isLeap (y + era * 400 + 1) then 365 else 364) + 1 := by
  unfold daysBefore
  split
  · rename_i hleap
    have := isLeap_iff.mp hleap
    omega
  · rename_i hleap
    have := mt isLeap_iff.mpr hleap
    omega

theorem daysBefore_last (era : Int) :
    146097 = daysBefore 399 + (if isLeap (399 + era * 400 + 1) then 365 else 364) + 1 := by
  rw [if_pos (isLeap_iff.mpr (by omega))]
  decide

/-- The date of the next day number is the day after. -/
theorem ofDayNumber_succ (n : Int) : ofDayNumber (n + 1) = (ofDayNumber n).tomorrow := by
  obtain ⟨era, y, d, heq, hn, hy, hd, hleap⟩ := exists_ofDayNumber n
  rw [heq]
  by_cases hlast : d = if isLeap (y + era * 400 + 1) then 365 else 364
  · rw [tomorrow_ofYearDay_last hlast]
    by_cases hera : y = 399
    · subst hera
      have hnext : n + 1 = (era + 1) * 146097 + daysBefore 0 + 0 - 719468 := by
        have := daysBefore_last era
        rw [show daysBefore 0 = 0 from rfl]
        omega
      rw [hnext, ofDayNumber_of_yearDay (by omega) (by omega) (by omega)]
      congr 1
      omega
    · have hnext : n + 1 = era * 146097 + daysBefore (y + 1) + 0 - 719468 := by
        have := daysBefore_succ (y := y) era (by omega)
        omega
      rw [hnext, ofDayNumber_of_yearDay (by omega) (by omega) (by omega)]
      congr 1
      omega
  · have hday : d + 1 ≤ 365 ∧ (d + 1 = 365 → isLeap (y + era * 400 + 1) = true) := by
      cases hl : isLeap (y + era * 400 + 1)
      · have hne : d ≠ 365 := fun h => by simp [hleap h] at hl
        simp only [hl, Bool.false_eq_true, if_false] at hlast
        omega
      · simp only [hl, if_true] at hlast
        exact ⟨by omega, fun _ => rfl⟩
    have hnext : n + 1 = era * 146097 + daysBefore y + (d + 1) - 719468 := by omega
    rw [tomorrow_ofYearDay hd.1 hday.1 hday.2, hnext,
      ofDayNumber_of_yearDay hy ⟨by omega, hday.1⟩ hday.2]

/-! ## Dates by count -/

/-- The day after is a later day of the same month, or it is the first of a month. -/
theorem tomorrow_cases (hc : c.valid = true) :
    c.day < daysInMonth c.year c.month ∧ c.tomorrow = ⟨c.year, c.month, c.day + 1⟩ ∨
      c.day = daysInMonth c.year c.month ∧
        (c.month < 12 ∧ c.tomorrow = ⟨c.year, c.month + 1, 1⟩ ∨
          c.month = 12 ∧ c.tomorrow = ⟨c.year + 1, 1, 1⟩) := by
  obtain ⟨hlow, hhigh, hfirst, hlast⟩ := of_decide_eq_true hc
  unfold tomorrow
  by_cases hday : c.day < daysInMonth c.year c.month
  · rw [if_pos hday]
    exact Or.inl ⟨hday, rfl⟩
  · rw [if_neg hday]
    refine Or.inr ⟨by omega, ?_⟩
    by_cases hmonth : c.month < 12
    · rw [if_pos hmonth]
      exact Or.inl ⟨hmonth, rfl⟩
    · rw [if_neg hmonth]
      exact Or.inr ⟨by omega, rfl⟩

/-- No two dates have the same day after. -/
theorem eq_of_tomorrow_eq (hc : c.valid = true) (hc' : c'.valid = true)
    (h : c.tomorrow = c'.tomorrow) : c = c' := by
  obtain ⟨hmonth, _, hfirst, _⟩ := of_decide_eq_true hc
  obtain ⟨hmonth', _, hfirst', _⟩ := of_decide_eq_true hc'
  obtain ⟨y, m, d⟩ := c
  obtain ⟨y', m', d'⟩ := c'
  -- A first of the month comes after the last day of the month before, and no other day does.
  rcases tomorrow_cases hc with ⟨_, ht⟩ | ⟨hd, ⟨_, ht⟩ | ⟨hm, ht⟩⟩ <;>
    rcases tomorrow_cases hc' with ⟨_, ht'⟩ | ⟨hd', ⟨_, ht'⟩ | ⟨hm', ht'⟩⟩ <;>
    rw [ht, ht', Civil.mk.injEq] at h <;> grind

theorem ofDayNumber_of_counted (h : Counted n c) : c = ofDayNumber n := by
  induction h with
  | epoch => rfl
  | next _ ih => rw [ofDayNumber_succ, ih]
  | last hvalid _ ih =>
      rw [ofDayNumber_succ] at ih
      exact eq_of_tomorrow_eq hvalid (valid_ofDayNumber _) ih

/-- Every day number has one date. -/
theorem counted_iff : Counted n c ↔ c = ofDayNumber n := by
  refine ⟨ofDayNumber_of_counted, ?_⟩
  rintro rfl
  induction n using Int.induction_on with
  | zero => exact .epoch
  | succ n ih =>
      rw [ofDayNumber_succ]
      exact ih.next
  | pred n ih =>
      refine .last (valid_ofDayNumber _) ?_
      rwa [← ofDayNumber_succ, Int.sub_add_cancel]
end Billing.Civil
