import Billing.Calendar.Date

/-!
# Instants

Moments in time, in seconds and nanoseconds from the start of 1970 in universal time, within the
days that a date can have. The last second of a minute may run on for another second: a leap second
is written as that second with a billion nanoseconds and more.
-/

namespace Billing

/-- A moment in time. -/
structure Instant where
  seconds : Int
  nanos : Nat
  inRange : -8334601228800 ≤ seconds ∧ seconds ≤ 8210266876799
  nanos_lt : nanos < 1000000000 ∨ (nanos < 2000000000 ∧ seconds % 60 = 59)
  deriving DecidableEq

namespace Instant

/-- The instant with these seconds and nanoseconds, if there is one. -/
def ofParts? (seconds : Int) (nanos : Nat) : Option Instant :=
  if h : -8334601228800 ≤ seconds ∧ seconds ≤ 8210266876799 then
    if h' : nanos < 1000000000 ∨ (nanos < 2000000000 ∧ seconds % 60 = 59) then
      some ⟨seconds, nanos, h, h'⟩
    else none
  else none

/-- The start of 1970. -/
def epoch : Instant := (ofParts? 0 0).get rfl

/-- The nanoseconds from the start of 1970. -/
def total (t : Instant) : Int := t.seconds * 1000000000 + t.nanos

/-- The instant that is a number of nanoseconds away from the start of 1970, if it is in range. -/
def ofTotal? (n : Int) : Option Instant :=
  let nanos := (n % 1000000000).toNat
  if h : -8334601228800 ≤ n / 1000000000 ∧ n / 1000000000 ≤ 8210266876799 then
    some ⟨n / 1000000000, nanos, h, .inl (by omega)⟩
  else none

/-- The instant a number of nanoseconds later, if it is in range. A leap second counts for an
instant that stands in it; once the instant has left it forwards, time goes on as if there had been
none. -/
def add? (t : Instant) (nanos : Int) : Option Instant :=
  let part := t.nanos + nanos
  if t.nanos < 1000000000 ∨ part < 1000000000 then ofTotal? (t.total + nanos)
  else if part < 2000000000 then ofParts? t.seconds part.toNat
  else ofTotal? (t.total + nanos - 1000000000)

/-- The number of the local day at an offset from universal time, in seconds. -/
def localDay (t : Instant) (offset : Int) : Int := (t.seconds + offset) / 86400

/-- The local date at an offset from universal time, in seconds, if it is in range. -/
def localDate? (t : Instant) (offset : Int) : Option Date := Date.ofDay? (t.localDay offset)

/-- An instant is at or before another. -/
def le (a b : Instant) : Bool := a.seconds < b.seconds || (a.seconds == b.seconds && a.nanos ≤ b.nanos)

theorem total_of_ofTotal? {n : Int} {t : Instant} (h : ofTotal? n = some t) : t.total = n := by
  unfold ofTotal? at h
  simp only at h
  split at h
  · cases h
    simp only [total]
    omega
  · cases h

end Instant

end Billing
