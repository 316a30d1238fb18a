import Billing.Store.Basic

/-!
# The vault

The store behind a lock. Who holds the lock writes to one table after the other, so that a write
that stops midway leaves what it has written, and a write that panics leaves the lock poisoned.
The next one takes the lock all the same, and goes on with the tables as they are.
-/

namespace Billing

/-- Whether a fault is a panic, and not an answer. -/
def PaymentFault.panics : PaymentFault → Bool
  | .refused _ => false
  | .overflow => true

/-- A write under the lock. What it has written stays written if it fails. -/
abbrev Write (α : Type) := ExceptT PaymentFault (StateM Store) α

namespace Write

/-- Stores an invoice. -/
def invoice (i : Invoice) : Write Unit := modify fun s => s.insertInvoice i

/-- Lowers the balance of an invoice. -/
def lower (i : Invoice) (amount : Amount) : Write Unit :=
  match i.balance.sub? amount with
  | none => throw .overflow
  | some balance => invoice { i with balance }

/-- Records a payment of an invoice that was looked up: a payment that was made lowers its balance
first, and is stored after that. -/
def settle (p : Payment) : Option Invoice → Write Unit
  | none => throw (.refused (.notFound ("invoice " ++ p.invoice.text)))
  | some i => do
    match p.status with
    | .failed => pure ()
    | .success => lower i p.amount
    modify fun s => s.insertPayment p

/-- Records a payment. -/
def payment (p : Payment) : Write Unit := do settle p ((← get).invoice? p.invoice)

end Write

/-- What is written to the ledger. -/
inductive Posting where
  | invoice (invoice : Invoice)
  | payment (payment : Payment)
  deriving DecidableEq

/-- The write of a posting. -/
def Posting.write : Posting → Write Unit
  | .invoice i => .invoice i
  | .payment p => .payment p

/-- The tables, and whether somebody panicked who held their lock. -/
structure Vault where
  tables : Store
  poisoned : Bool
  deriving DecidableEq

namespace Vault

/-- A vault without records. -/
def empty : Vault := ⟨.empty, false⟩

/-- Carries out a write, whether or not the lock is poisoned. -/
def write {α : Type} (v : Vault) (w : Write α) : Except PaymentFault α × Vault :=
  match w.run.run v.tables with
  | (.ok a, s) => (.ok a, ⟨s, v.poisoned⟩)
  | (.error e, s) => (.error e, ⟨s, v.poisoned || e.panics⟩)

/-- Carries out a posting. -/
def post (v : Vault) (e : Posting) : Except PaymentFault Unit × Vault := v.write e.write

/-- The vault after some postings; one that fails stops none after it. -/
def after (v : Vault) (es : List Posting) : Vault := es.foldl (fun v e => (v.post e).2) v

/-- What some postings are answered. -/
def answers (v : Vault) : List Posting → List (Except PaymentFault Unit)
  | [] => []
  | e :: es => (v.post e).1 :: (v.post e).2.answers es

end Vault

end Billing
