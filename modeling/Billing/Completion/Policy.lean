import Billing.ControlTag
import Billing.Event

/-!
# When billing has settled

The billing of a command ends with an event that depends on the tags of the account: a blocking
state where invoices are suppressed, else an empty invoice, an invoice that asks for no payment, or
the outcome of a payment.
-/

namespace Billing.Completion

/-- What an event means to somebody who waits for the billing of a command. -/
inductive Decision where
  /-- The billing has settled. -/
  | complete
  /-- More events will come. -/
  | keepWaiting
  deriving DecidableEq

/-- Whether an event ends the billing of an account with these tags. -/
def settles (tags : ControlTagSet) : DomainEvent → Bool
  | .subscriptionTransition .. => false
  | .blockingStateChange .. => tags.invoicingSuppressed
  | .emptyInvoice => true
  | .invoiceCreated _ owed => owed.value ≤ 0 || tags.autoPayOff
  | .paymentInfo .. => true
  | .paymentError .. => true
  | .paymentPluginError .. => true
  | .invoicePaymentInfo .. => true
  | .invoicePaymentError .. => true

/-- What an event means under these tags. -/
def Decision.of (tags : ControlTagSet) (event : DomainEvent) : Decision :=
  if settles tags event then .complete else .keepWaiting

/-- The billing has settled. -/
def Decision.isComplete (d : Decision) : Bool := d == .complete

theorem Decision.of_eq_complete_iff {tags : ControlTagSet} {event : DomainEvent} :
    Decision.of tags event = .complete ↔ settles tags event = true := by
  unfold Decision.of
  split <;> simp_all

end Billing.Completion
