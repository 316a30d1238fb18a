import Billing.Amount
import Billing.Identifier

/-!
# Billing events

What the billing of a command reports as it proceeds.
-/

namespace Billing

/-- What happened to a subscription. -/
inductive Transition where
  | create
  | change
  | cancel
  | uncancel
  | phase
  deriving DecidableEq

/-- The kinds of events. -/
inductive EventKind where
  | subscriptionTransition
  | blockingStateChange
  | invoiceCreated
  | emptyInvoice
  | paymentInfo
  | paymentError
  | paymentPluginError
  | invoicePaymentInfo
  | invoicePaymentError
  deriving DecidableEq

/-- A report of one stage of billing. -/
inductive DomainEvent where
  /-- A transition of a subscription took effect; so many more belong to the same command. -/
  | subscriptionTransition (subscription : SubscriptionId) (transition : Transition)
      (remaining : UInt32)
  /-- The blocking state of an account or a subscription changed. -/
  | blockingStateChange (subscription : Option SubscriptionId) (state : String)
  /-- An invoice was committed. -/
  | invoiceCreated (invoice : InvoiceId) (owed : Amount)
  /-- There was nothing to bill. -/
  | emptyInvoice
  | paymentInfo (payment : PaymentId) (invoice : Option InvoiceId) (amount : Amount)
  | paymentError (invoice : Option InvoiceId) (message : String)
  | paymentPluginError (invoice : Option InvoiceId) (message : String)
  | invoicePaymentInfo (invoice : InvoiceId) (payment : PaymentId) (amount : Amount)
  | invoicePaymentError (invoice : InvoiceId) (message : String)
  deriving DecidableEq

/-- All transitions. -/
def Transition.all : List Transition := [.create, .change, .cancel, .uncancel, .phase]

/-- The name of a transition. -/
def Transition.name : Transition → String
  | .create => "create"
  | .change => "change"
  | .cancel => "cancel"
  | .uncancel => "uncancel"
  | .phase => "phase"

/-- The transition with this name. -/
def Transition.ofName? (s : String) : Option Transition := all.find? fun t => t.name == s

namespace EventKind

/-- All kinds of events. -/
def all : List EventKind :=
  [.subscriptionTransition, .blockingStateChange, .invoiceCreated, .emptyInvoice, .paymentInfo,
    .paymentError, .paymentPluginError, .invoicePaymentInfo, .invoicePaymentError]

/-- The name of a kind where events are written as JSON. -/
def tag : EventKind → String
  | .subscriptionTransition => "subscription_transition"
  | .blockingStateChange => "blocking_state_change"
  | .invoiceCreated => "invoice_created"
  | .emptyInvoice => "empty_invoice"
  | .paymentInfo => "payment_info"
  | .paymentError => "payment_error"
  | .paymentPluginError => "payment_plugin_error"
  | .invoicePaymentInfo => "invoice_payment_info"
  | .invoicePaymentError => "invoice_payment_error"

/-- The stable name of a kind, as its stage and what happened there. -/
def title : EventKind → String
  | .subscriptionTransition => "subscription.transition"
  | .blockingStateChange => "blocking_state.changed"
  | .invoiceCreated => "invoice.created"
  | .emptyInvoice => "invoice.empty"
  | .paymentInfo => "payment.info"
  | .paymentError => "payment.error"
  | .paymentPluginError => "payment.plugin_error"
  | .invoicePaymentInfo => "invoice_payment.info"
  | .invoicePaymentError => "invoice_payment.error"

/-- The kind with this tag. -/
def ofTag? (s : String) : Option EventKind := all.find? fun k => k.tag == s

theorem ofTag?_tag (k : EventKind) : ofTag? k.tag = some k := by cases k <;> decide

end EventKind

/-- The kind of an event. -/
def DomainEvent.kind : DomainEvent → EventKind
  | .subscriptionTransition .. => .subscriptionTransition
  | .blockingStateChange .. => .blockingStateChange
  | .invoiceCreated .. => .invoiceCreated
  | .emptyInvoice => .emptyInvoice
  | .paymentInfo .. => .paymentInfo
  | .paymentError .. => .paymentError
  | .paymentPluginError .. => .paymentPluginError
  | .invoicePaymentInfo .. => .invoicePaymentInfo
  | .invoicePaymentError .. => .invoicePaymentError

end Billing
