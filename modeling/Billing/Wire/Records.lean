import Billing.Store.Records
import Billing.Wire.Scalar

/-!
# Records as JSON

Every record has a full form, in which timelines show it; accounts and subscriptions have a second
one, in which they are answered.
-/

namespace Billing

/-- The name of a state. -/
def SubscriptionState.name : SubscriptionState → String
  | .active => "ACTIVE"
  | .pendingCancel => "PENDING_CANCEL"
  | .cancelled => "CANCELLED"

/-- The name of a status. -/
def InvoiceStatus.name : InvoiceStatus → String
  | .draft => "DRAFT"
  | .committed => "COMMITTED"

/-- The name of a status. -/
def PaymentStatus.name : PaymentStatus → String
  | .success => "SUCCESS"
  | .failed => "FAILED"

/-- A pending change as JSON. -/
def PendingChange.toJson (c : PendingChange) : Json :=
  .object [("planName", .string c.plan), ("effectiveDate", c.effective.toJson)]

/-! ## Full forms -/

/-- An account in full. -/
def Account.toJson (a : Account) : Json :=
  .object
    [("id", a.id.toJson), ("name", .string a.name), ("utcOffsetMinutes", .int a.utcOffsetMinutes),
      ("controlTags", a.tags.toJson), ("paymentMethod", .boolean a.paymentMethod),
      ("createdAt", a.createdAt.toJson)]

/-- The members that both forms of a subscription have. -/
def Subscription.members (s : Subscription) : List (String × Json) :=
  [("id", s.id.toJson), ("bundleId", s.bundle.toJson), ("accountId", s.account.toJson),
    ("planName", .string s.plan), ("state", .string s.state.name),
    ("startDate", s.startDate.toJson),
    ("billingEndDate", .optional Date.toJson s.billingEndDate),
    ("pendingChange", .optional PendingChange.toJson s.pendingChange)]

/-- A subscription in full. -/
def Subscription.toJson (s : Subscription) : Json :=
  .object (s.members ++ [("createdAt", s.createdAt.toJson)])

/-- An invoice in full. -/
def Invoice.toJson (i : Invoice) : Json :=
  .object
    [("id", i.id.toJson), ("accountId", i.account.toJson),
      ("subscriptionId", i.subscription.toJson), ("status", .string i.status.name),
      ("amount", i.amount.toJson), ("balance", i.balance.toJson),
      ("createdAt", i.createdAt.toJson)]

/-- A payment in full. -/
def Payment.toJson (p : Payment) : Json :=
  .object
    [("id", p.id.toJson), ("accountId", p.account.toJson), ("invoiceId", p.invoice.toJson),
      ("amount", p.amount.toJson), ("status", .string p.status.name),
      ("message", .optional Json.string p.message), ("createdAt", p.createdAt.toJson)]

/-- An entry of the audit log. -/
def AuditEntry.toJson (e : AuditEntry) : Json :=
  .object
    [("token", e.token.toJson), ("accountId", e.account.toJson), ("action", .string e.action),
      ("createdBy", .optional Json.string e.note.createdBy),
      ("reason", .optional Json.string e.note.reason),
      ("comment", .optional Json.string e.note.comment), ("at", e.moment.toJson)]

/-! ## Forms of answers -/

/-- An account as it is answered: the moment of its creation with the offset spelt out. -/
def Account.answer (a : Account) : Json :=
  .object
    [("id", a.id.toJson), ("name", .string a.name), ("utcOffsetMinutes", .int a.utcOffsetMinutes),
      ("controlTags", a.tags.toJson), ("paymentMethod", .boolean a.paymentMethod),
      ("createdAt", .string a.createdAt.stampWithOffset)]

/-- A subscription as it is answered: without the moment of its creation. -/
def Subscription.answer (s : Subscription) : Json := .object s.members

end Billing
