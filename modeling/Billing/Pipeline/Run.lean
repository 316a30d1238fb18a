import Billing.Event
import Billing.Store.Basic

/-!
# Billing runs

The billing of one command. A run reads the account, and later announces the transition of the
subscription; where invoices are suppressed it announces the blocking state and ends, else it makes
an invoice, and pays it if there is something to pay and payments are not turned off. Each step
touches the store at most once or announces one event, so that other runs and commands may come
between any two of them.
-/

namespace Billing.Pipeline

/-- What is to be billed. -/
structure Order where
  token : CorrelationToken
  account : AccountId
  subscription : SubscriptionId
  transition : Transition
  /-- The amount to invoice. -/
  amount : Amount
  deriving DecidableEq

/-- What a run has read of its account. -/
structure Terms where
  tags : ControlTagSet
  paymentMethod : Bool
  deriving DecidableEq

/-- What a run does next. -/
inductive Phase where
  /-- It reads the account. -/
  | queued
  /-- It announces the transition. -/
  | transitioning (terms : Terms)
  /-- Invoices are suppressed: it stores a draft if one is wanted. -/
  | drafting (terms : Terms)
  /-- It announces the blocking state. -/
  | blocking (terms : Terms)
  /-- It stores an invoice, or announces that there is nothing to bill. -/
  | invoicing (terms : Terms)
  /-- It announces the invoice. -/
  | announcing (terms : Terms) (invoice : Invoice)
  /-- It records a payment. -/
  | paying (terms : Terms) (invoice : Invoice)
  /-- It announces that no payment was made. -/
  | failing (invoice : Invoice)
  /-- It announces the payment. -/
  | settling (invoice : Invoice) (payment : PaymentId)
  /-- It announces the payment of the invoice. -/
  | confirming (invoice : Invoice) (payment : PaymentId)
  | ended
  deriving DecidableEq

/-- The records, with the number of the next identifier that is handed out. -/
structure Books where
  store : Store
  fresh : Nat
  deriving DecidableEq

/-- What a step of a run does. -/
structure Progress where
  books : Books
  event : Option DomainEvent
  phase : Phase
  /-- The next step comes after a pause. -/
  pauses : Bool
  deriving DecidableEq

namespace Progress

/-- Nothing is written or announced. -/
def silent (b : Books) (p : Phase) (pauses : Bool) : Progress := ⟨b, none, p, pauses⟩

/-- An event is announced. -/
def announce (b : Books) (e : DomainEvent) (p : Phase) (pauses : Bool) : Progress :=
  ⟨b, some e, p, pauses⟩

end Progress

/-- The message of a payment that no payment method was on file for. -/
def noPaymentMethod : String := "no default payment method"

/-- The name of the blocking state where invoices are suppressed. -/
def blockingState (tags : ControlTagSet) : String :=
  if tags.autoInvoicingOff then "AUTO_INVOICING_OFF" else "AUTO_INVOICING_DRAFT"

/-- An invoice of an order over its whole amount. -/
def Order.invoice (o : Order) (id : InvoiceId) (status : InvoiceStatus) (now : Instant) : Invoice :=
  ⟨id, o.account, o.subscription, status, o.amount, o.amount, now⟩

/-- A payment of an invoice over its whole balance. -/
def Order.payment (o : Order) (id : PaymentId) (i : Invoice) (status : PaymentStatus)
    (message : Option String) (now : Instant) : Payment :=
  ⟨id, o.account, i.id, i.balance, status, message, now⟩

/-- Records a payment under a new identifier; a run whose payment is not recorded ends. -/
def Books.pay (b : Books) (p : Payment) (next : Phase) : Progress :=
  match b.store.recordPayment p with
  | .ok store => .silent ⟨store, b.fresh + 1⟩ next false
  | .error _ => .silent ⟨b.store, b.fresh + 1⟩ .ended false

/-- The step of a run in some phase, at a moment. -/
def Phase.step (o : Order) (b : Books) (now : Instant) : Phase → Progress
  | .queued =>
    match b.store.account? o.account with
    | none => .silent b .ended false
    | some a => .silent b (.transitioning ⟨a.tags, a.paymentMethod⟩) true
  | .transitioning t =>
    let e := .subscriptionTransition o.subscription o.transition 0
    if t.tags.invoicingSuppressed then .announce b e (.drafting t) false
    else .announce b e (.invoicing t) true
  | .drafting t =>
    if t.tags.autoInvoicingDraft ∧ o.amount.value ≠ 0 then
      .silent ⟨b.store.insertInvoice (o.invoice (.numbered b.fresh) .draft now), b.fresh + 1⟩
        (.blocking t) false
    else .silent b (.blocking t) false
  | .blocking t =>
    .announce b (.blockingStateChange (some o.subscription) (blockingState t.tags)) .ended false
  | .invoicing t =>
    if o.amount.value = 0 then .announce b .emptyInvoice .ended false
    else
      let i := o.invoice (.numbered b.fresh) .committed now
      .silent ⟨b.store.insertInvoice i, b.fresh + 1⟩ (.announcing t i) false
  | .announcing t i =>
    let e := .invoiceCreated i.id i.balance
    if i.balance.value ≤ 0 ∨ t.tags.autoPayOff then .announce b e .ended false
    else .announce b e (.paying t i) true
  | .paying t i =>
    let id : PaymentId := .numbered b.fresh
    if t.paymentMethod then b.pay (o.payment id i .success none now) (.settling i id)
    else b.pay (o.payment id i .failed (some noPaymentMethod) now) (.failing i)
  | .failing i => .announce b (.paymentError (some i.id) noPaymentMethod) .ended false
  | .settling i p => .announce b (.paymentInfo p (some i.id) i.balance) (.confirming i p) false
  | .confirming i p => .announce b (.invoicePaymentInfo i.id p i.balance) .ended false
  | .ended => .silent b .ended false

end Billing.Pipeline
