/-!
# Amounts

Amounts of money in minor units, as whole numbers of 64 bits. A difference that does not fit is no
amount.
-/

namespace Billing

/-- An amount of money in minor units. -/
structure Amount where
  value : Int
  inRange : -9223372036854775808 ≤ value ∧ value ≤ 9223372036854775807
  deriving DecidableEq

namespace Amount

/-- The amount of a whole number, if it fits. -/
def ofInt? (n : Int) : Option Amount :=
  if h : -9223372036854775808 ≤ n ∧ n ≤ 9223372036854775807 then some ⟨n, h⟩ else none

/-- Nothing. -/
def zero : Amount := ⟨0, by decide⟩

/-- The difference of two amounts, if it fits. -/
def sub? (a b : Amount) : Option Amount := ofInt? (a.value - b.value)

theorem value_of_ofInt? {n : Int} {a : Amount} (h : ofInt? n = some a) : a.value = n := by
  unfold ofInt? at h
  split at h
  · cases h; rfl
  · cases h

@[simp] theorem ofInt?_value (a : Amount) : ofInt? a.value = some a := by simp [ofInt?, a.inRange]

/-- An amount less itself is nothing. -/
@[simp] theorem sub?_self (a : Amount) : a.sub? a = some zero := by simp [sub?, ofInt?, zero]

end Amount

end Billing
