import Billing.Calendar.Instant

/-!
# Clocks

A clock that is set by hand. An advance that leaves the range of instants breaks it: the reading
stays, and every later attempt to move the clock is ignored.
-/

namespace Billing

/-- A clock set by hand. -/
structure FixedClock where
  now : Instant
  broken : Bool
  deriving DecidableEq

namespace FixedClock

/-- A clock that shows an instant. -/
def startingAt (t : Instant) : FixedClock := ⟨t, false⟩

/-- Sets the clock, unless it is broken. -/
def set (c : FixedClock) (t : Instant) : FixedClock := if c.broken then c else { c with now := t }

/-- Moves the clock by a number of nanoseconds. The answer tells whether the move crashed. -/
def advance (c : FixedClock) (nanos : Int) : Bool × FixedClock :=
  if c.broken then (false, c)
  else
    match c.now.add? nanos with
    | some t => (false, { c with now := t })
    | none => (true, { c with broken := true })

/-- What is done with a clock. -/
inductive Use where
  | set (t : Instant)
  | advance (nanos : Int)
  | read
  deriving DecidableEq

/-- What comes of it. -/
inductive Answer where
  | done
  | crashed
  | shows (t : Instant)
  deriving DecidableEq

/-- Uses the clock once. -/
def use (c : FixedClock) : Use → Answer × FixedClock
  | .set t => (.done, c.set t)
  | .advance nanos =>
    match c.advance nanos with
    | (true, c) => (.crashed, c)
    | (false, c) => (.done, c)
  | .read => (.shows c.now, c)

/-- The clock after some uses; one that crashes stops none after it. -/
def after (c : FixedClock) (us : List Use) : FixedClock := us.foldl (fun c u => (c.use u).2) c

/-- What comes of some uses. -/
def answers (c : FixedClock) : List Use → List Answer
  | [] => []
  | u :: us => (c.use u).1 :: (c.use u).2.answers us

/-- The date at an offset from universal time, in seconds. -/
def todayIn? (c : FixedClock) (offset : Int) : Option Date := c.now.localDate? offset

end FixedClock

end Billing
