import Billing.Amount
import Billing.Calendar.Instant
import Billing.Completion.Context
import Billing.ControlTag
import Billing.Text.Blank

/-!
# Records

What the store keeps: accounts, subscriptions, invoices, payments, and entries of the audit log.
-/

namespace Billing

/-! ## Accounts -/

/-- Somebody who is billed. -/
structure Account where
  id : AccountId
  name : String
  /-- The distance of local time from universal time, in minutes. -/
  utcOffsetMinutes : Int
  tags : ControlTagSet
  /-- A payment method is on file. -/
  paymentMethod : Bool
  createdAt : Instant
  deriving DecidableEq

/-- What is asked for when an account is created. -/
structure NewAccount where
  name : String
  utcOffsetMinutes : Int
  tags : ControlTagSet
  paymentMethod : Bool
  deriving DecidableEq

namespace Account

/-- The largest distance from universal time: fourteen hours, in minutes. -/
def maxOffsetMinutes : Int := 14 * 60

/-- A new account. Its name must not be blank, and its offset not too large. -/
def create (id : AccountId) (n : NewAccount) (createdAt : Instant) : Except DomainError Account :=
  if Text.allBlank n.name then .error (.validation "account name must not be empty")
  else if -maxOffsetMinutes ≤ n.utcOffsetMinutes ∧ n.utcOffsetMinutes ≤ maxOffsetMinutes then
    .ok ⟨id, n.name, n.utcOffsetMinutes, n.tags, n.paymentMethod, createdAt⟩
  else .error (.validation s!"utc offset out of range: {n.utcOffsetMinutes} minutes")

/-- The distance from universal time in seconds; none if it is a day or more. -/
def offset (a : Account) : Int :=
  let seconds := a.utcOffsetMinutes * 60
  if -86400 < seconds ∧ seconds < 86400 then seconds else 0

/-- The local date of an account, if it is in range. -/
def today? (a : Account) (now : Instant) : Option Date := now.localDate? a.offset

end Account

/-! ## Subscriptions -/

/-- Whether a subscription goes on. -/
inductive SubscriptionState where
  | active
  /-- A cancellation is due on the end date. -/
  | pendingCancel
  | cancelled
  deriving DecidableEq

/-- A change of plan on a later date. -/
structure PendingChange where
  plan : String
  effective : Date
  deriving DecidableEq

/-- A plan that an account pays for. -/
structure Subscription where
  id : SubscriptionId
  bundle : BundleId
  account : AccountId
  plan : String
  state : SubscriptionState
  startDate : Date
  billingEndDate : Option Date
  pendingChange : Option PendingChange
  createdAt : Instant
  deriving DecidableEq

/-! ## Invoices and payments -/

/-- Whether an invoice counts. -/
inductive InvoiceStatus where
  | draft
  | committed
  deriving DecidableEq

/-- What an account owes for a subscription, and what is still open of it. -/
structure Invoice where
  id : InvoiceId
  account : AccountId
  subscription : SubscriptionId
  status : InvoiceStatus
  amount : Amount
  balance : Amount
  createdAt : Instant
  deriving DecidableEq

/-- Whether a payment was made. -/
inductive PaymentStatus where
  | success
  | failed
  deriving DecidableEq

/-- An attempt to pay an invoice. -/
structure Payment where
  id : PaymentId
  account : AccountId
  invoice : InvoiceId
  amount : Amount
  status : PaymentStatus
  message : Option String
  createdAt : Instant
  deriving DecidableEq

/-! ## The audit log -/

/-- Who did what to an account, and why. -/
structure AuditEntry where
  token : CorrelationToken
  account : AccountId
  action : String
  note : Completion.AuditNote
  moment : Instant
  deriving DecidableEq

/-- The entry for an action of a call. -/
def AuditEntry.ofContext (c : Completion.CallContext) (account : AccountId) (action : String)
    (moment : Instant) : AuditEntry :=
  ⟨c.token, account, action, c.note, moment⟩

end Billing
