import Billing.Calendar.Instant

/-!
# Timing of effects

A command takes effect at once, or on a later date. Only a date after the local date of the account
defers it.
-/

namespace Billing

/-- When a command takes effect. -/
inductive EffectTiming where
  | immediate
  | deferred (effective : Date)
  deriving DecidableEq

namespace EffectTiming

/-- The latest of some dates. -/
def latest? : List Date → Option Date
  | [] => none
  | d :: ds => some (ds.foldl Date.latest d)

/-- Deferred to the latest of the dates after today; immediate if there is none. -/
def classify (dates : List Date) (today : Date) : EffectTiming :=
  match latest? (dates.filter fun d => today < d) with
  | some effective => .deferred effective
  | none => .immediate

/-- The timing against the local date at an offset in seconds, if that date is in range. -/
def forAccount? (dates : List Date) (now : Instant) (offset : Int) : Option EffectTiming :=
  (now.localDate? offset).map (classify dates)

end EffectTiming

/-- What a command did, and when that takes effect. -/
structure Executed (α : Type) where
  value : α
  timing : EffectTiming
  deriving DecidableEq

namespace Executed

variable {α : Type}

/-- What was done takes effect at once. -/
def immediate (value : α) : Executed α := ⟨value, .immediate⟩

/-- What was done takes effect on a later date. -/
def deferred (value : α) (effective : Date) : Executed α := ⟨value, .deferred effective⟩

end Executed

end Billing
