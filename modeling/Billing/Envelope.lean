import Billing.Calendar.Instant
import Billing.Event

/-!
# Envelopes

An event on its way: with a number of its own, the token of the command that caused it, the account
that it concerns and the moment at which it happened.
-/

namespace Billing

/-- A payload on its way. -/
structure Envelope (α : Type) where
  eventId : Uuid
  token : CorrelationToken
  account : AccountId
  occurredAt : Instant
  payload : α
  deriving DecidableEq

/-- An event on its way. -/
abbrev BillingEnvelope := Envelope DomainEvent

end Billing
