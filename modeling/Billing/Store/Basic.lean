import Billing.Store.Records
import Billing.Store.Table

/-!
# The store

All records. Every operation is one step: nothing comes between what it reads and what it writes.
-/

namespace Billing

/-- All records. -/
structure Store where
  accounts : List Account
  subscriptions : List Subscription
  invoices : List Invoice
  payments : List Payment
  /-- The audit log, the oldest entry first. -/
  audit : List AuditEntry
  deriving DecidableEq

/-- Why a payment is not recorded. -/
inductive PaymentFault where
  | refused (error : DomainError)
  /-- The balance would leave the range of amounts. -/
  | overflow
  deriving DecidableEq

/-! ## Going through a table -/

/-- The order in which the rows of a table come when all of them are gone through. A table is a hash
map: it is any order, and may be another one after every change. -/
structure Scan (α : Type) where
  list : List α → List α
  perm : ∀ rows, (list rows).Perm rows

namespace Scan

variable {α : Type}

/-- The rows come in the order of their identifiers. -/
def ascending {k : IdKind} (id : α → Id k) : Scan α where
  list rows := rows.mergeSort fun a b => (id a).uuid.bits ≤ (id b).uuid.bits
  perm rows := List.mergeSort_perm rows _

/-- The wanted rows by the moments of their creation; rows of one moment stay as they come. -/
def sorted (o : Scan α) (createdAt : α → Instant) (wanted : α → Bool) (rows : List α) : List α :=
  ((o.list rows).filter wanted).mergeSort fun a b => (createdAt a).le (createdAt b)

end Scan

/-- The orders in which the tables are gone through. -/
structure Scans where
  subscriptions : Scan Subscription
  invoices : Scan Invoice
  payments : Scan Payment

/-- All rows come in the order of their identifiers. -/
def Scans.ascending : Scans := ⟨.ascending (·.id), .ascending (·.id), .ascending (·.id)⟩

namespace Store

/-- A store without records. -/
def empty : Store := ⟨[], [], [], [], []⟩

/-! ## Accounts -/

/-- The account with an identifier, if there is one. -/
def account? (s : Store) (id : AccountId) : Option Account := Table.find? (·.id) id s.accounts

/-- The account with an identifier. -/
def account (s : Store) (id : AccountId) : Except DomainError Account :=
  match s.account? id with
  | some a => .ok a
  | none => .error (.notFound ("account " ++ id.text))

/-- Stores an account. -/
def insertAccount (s : Store) (a : Account) : Store :=
  { s with accounts := Table.put (·.id) a s.accounts }

/-- Replaces the tags of an account. -/
def setTags (s : Store) (id : AccountId) (tags : ControlTagSet) :
    Except DomainError (Account × Store) :=
  match s.account id with
  | .error e => .error e
  | .ok a => .ok ({ a with tags }, s.insertAccount { a with tags })

/-! ## Subscriptions -/

/-- The subscription with an identifier, if there is one. -/
def subscription? (s : Store) (id : SubscriptionId) : Option Subscription :=
  Table.find? (·.id) id s.subscriptions

/-- The subscription with an identifier. -/
def subscription (s : Store) (id : SubscriptionId) : Except DomainError Subscription :=
  match s.subscription? id with
  | some x => .ok x
  | none => .error (.notFound ("subscription " ++ id.text))

/-- Stores a subscription. -/
def insertSubscription (s : Store) (x : Subscription) : Store :=
  { s with subscriptions := Table.put (·.id) x s.subscriptions }

/-- Changes a subscription. The change is kept even if it answers with an error. -/
def updateSubscription {α : Type} (s : Store) (id : SubscriptionId)
    (change : Subscription → Except DomainError α × Subscription) : Except DomainError α × Store :=
  match s.subscription id with
  | .error e => (.error e, s)
  | .ok x =>
    let (answer, x) := change x
    (answer, s.insertSubscription x)

/-! ## Invoices and payments -/

/-- The invoice with an identifier, if there is one. -/
def invoice? (s : Store) (id : InvoiceId) : Option Invoice := Table.find? (·.id) id s.invoices

/-- Stores an invoice. -/
def insertInvoice (s : Store) (i : Invoice) : Store :=
  { s with invoices := Table.put (·.id) i s.invoices }

/-- Stores a payment. -/
def insertPayment (s : Store) (p : Payment) : Store :=
  { s with payments := Table.put (·.id) p s.payments }

/-- Records a payment of a stored invoice; a payment that was made lowers its balance. -/
def recordPayment (s : Store) (p : Payment) : Except PaymentFault Store :=
  match s.invoice? p.invoice with
  | none => .error (.refused (.notFound ("invoice " ++ p.invoice.text)))
  | some i =>
    match p.status with
    | .failed => .ok (s.insertPayment p)
    | .success =>
      match i.balance.sub? p.amount with
      | none => .error .overflow
      | some balance => .ok ((s.insertInvoice { i with balance }).insertPayment p)

/-! ## The audit log -/

/-- Adds an entry to the audit log. -/
def recordAudit (s : Store) (e : AuditEntry) : Store := { s with audit := s.audit ++ [e] }

/-! ## The records of an account -/

/-- The subscriptions of an account in the order of their creation. -/
def subscriptionsFor (s : Store) (o : Scans) (id : AccountId) : List Subscription :=
  o.subscriptions.sorted (·.createdAt) (fun x => x.account = id) s.subscriptions

/-- The invoices of an account in the order of their creation. -/
def invoicesFor (s : Store) (o : Scans) (id : AccountId) : List Invoice :=
  o.invoices.sorted (·.createdAt) (fun i => i.account = id) s.invoices

/-- The payments of an account in the order of their creation. -/
def paymentsFor (s : Store) (o : Scans) (id : AccountId) : List Payment :=
  o.payments.sorted (·.createdAt) (fun p => p.account = id) s.payments

/-- The audit log of an account in the order of its entries. -/
def auditFor (s : Store) (id : AccountId) : List AuditEntry :=
  s.audit.filter fun e => e.account = id

end Store

end Billing
