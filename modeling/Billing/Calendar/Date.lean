import Billing.Text.Decimal

/-!
# Dates

Days of the proleptic Gregorian calendar, counted from 1 January 1970, in the years -262143 to
262142. A date is ordered by its day number; year, month and day are computed from it and back.
-/

namespace Billing

/-- A year, a month and a day of the month. -/
structure Civil where
  year : Int
  month : Int
  day : Int
  deriving DecidableEq

namespace Civil

/-- A year of 366 days. -/
def isLeap (y : Int) : Bool := y % 4 = 0 ∧ (y % 100 ≠ 0 ∨ y % 400 = 0)

/-- The number of days of a month. -/
def daysInMonth (y m : Int) : Int :=
  if m = 2 then (if isLeap y then 29 else 28)
  else if m = 4 ∨ m = 6 ∨ m = 9 ∨ m = 11 then 30
  else 31

/-- The month and the day exist. -/
def valid (c : Civil) : Bool :=
  1 ≤ c.month ∧ c.month ≤ 12 ∧ 1 ≤ c.day ∧ c.day ≤ daysInMonth c.year c.month

/-- The number of days from 1 January 1970, with years that begin in March. -/
def dayNumber (c : Civil) : Int :=
  let y := if c.month ≤ 2 then c.year - 1 else c.year
  let era := y / 400
  let yearOfEra := y - era * 400
  let month := if 2 < c.month then c.month - 3 else c.month + 9
  let dayOfYear := (153 * month + 2) / 5 + c.day - 1
  let dayOfEra := yearOfEra * 365 + yearOfEra / 4 - yearOfEra / 100 + dayOfYear
  era * 146097 + dayOfEra - 719468

/-- The year, month and day of a day number. -/
def ofDayNumber (n : Int) : Civil :=
  let z := n + 719468
  let era := z / 146097
  let dayOfEra := z - era * 146097
  let yearOfEra := (dayOfEra - dayOfEra / 1460 + dayOfEra / 36524 - dayOfEra / 146096) / 365
  let dayOfYear := dayOfEra - (365 * yearOfEra + yearOfEra / 4 - yearOfEra / 100)
  let m := (5 * dayOfYear + 2) / 153
  let month := if m < 10 then m + 3 else m - 9
  ⟨yearOfEra + era * 400 + (if month ≤ 2 then 1 else 0), month, dayOfYear - (153 * m + 2) / 5 + 1⟩

/-- The year as written: four digits, or a sign and at least four digits. -/
def yearText (y : Int) : String :=
  if 0 ≤ y ∧ y ≤ 9999 then Text.padded 4 y.toNat
  else (if y < 0 then "-" else "+") ++ Text.padded 4 y.natAbs

/-- The written form `YYYY-MM-DD`. -/
def text (c : Civil) : String :=
  yearText c.year ++ "-" ++ Text.padded 2 c.month.toNat ++ "-" ++ Text.padded 2 c.day.toNat

end Civil

/-- A day between 1 January -262143 and 31 December 262142. -/
structure Date where
  day : Int
  inRange : -96465292 ≤ day ∧ day ≤ 95026236
  deriving DecidableEq

namespace Date

/-- The first day of the range. -/
def first : Date := ⟨-96465292, by decide⟩

/-- The date with a day number, if it is in range. -/
def ofDay? (n : Int) : Option Date :=
  if h : -96465292 ≤ n ∧ n ≤ 95026236 then some ⟨n, h⟩ else none

/-- The date of a year, month and day, if they exist and are in range. -/
def ofCivil? (c : Civil) : Option Date := if c.valid then ofDay? c.dayNumber else none

/-- The year, month and day of a date. -/
def civil (d : Date) : Civil := .ofDayNumber d.day

/-- The written form of a date. -/
def text (d : Date) : String := d.civil.text

instance : LT Date := ⟨fun a b => a.day < b.day⟩
instance : LE Date := ⟨fun a b => a.day ≤ b.day⟩
instance (a b : Date) : Decidable (a < b) := inferInstanceAs (Decidable (a.day < b.day))
instance (a b : Date) : Decidable (a ≤ b) := inferInstanceAs (Decidable (a.day ≤ b.day))

/-- The later of two dates. -/
def latest (a b : Date) : Date := if a < b then b else a

@[simp] theorem ofDay?_day (d : Date) : ofDay? d.day = some d := by simp [ofDay?, d.inRange]

theorem day_of_ofDay? {n : Int} {d : Date} (h : ofDay? n = some d) : d.day = n := by
  unfold ofDay? at h
  split at h
  · cases h; rfl
  · cases h

end Date

end Billing
