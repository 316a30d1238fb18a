import Billing.DomainError
import Billing.Uuid.Reader

/-!
# Identifiers

An identifier says what kind of thing it names, so that one of an account cannot stand for one of
an invoice. All kinds share one written form.
-/

namespace Billing

/-- The kinds of things that bear an identifier. -/
inductive IdKind where
  | account
  | subscription
  | bundle
  | invoice
  | payment
  | token
  deriving DecidableEq

/-- The name of a kind of identifier in error messages. -/
def IdKind.name : IdKind → String
  | .account => "AccountId"
  | .subscription => "SubscriptionId"
  | .bundle => "BundleId"
  | .invoice => "InvoiceId"
  | .payment => "PaymentId"
  | .token => "CorrelationToken"

/-- An identifier of a thing of kind `k`. -/
structure Id (k : IdKind) where
  uuid : Uuid
  deriving DecidableEq, Hashable

/-- Names a billing account. -/
abbrev AccountId := Id .account
/-- Names a subscription. -/
abbrev SubscriptionId := Id .subscription
/-- Names a bundle of subscriptions. -/
abbrev BundleId := Id .bundle
/-- Names an invoice. -/
abbrev InvoiceId := Id .invoice
/-- Names a payment. -/
abbrev PaymentId := Id .payment
/-- Links a command to every event that it causes. -/
abbrev CorrelationToken := Id .token

namespace Id

variable {k : IdKind}

/-- The written form of an identifier. -/
def text (i : Id k) : String := i.uuid.text

/-- Reads an identifier; a refusal names its kind and the fault of the text. -/
def parse (k : IdKind) (s : String) : Except DomainError (Id k) :=
  match Uuid.parse s with
  | .ok u => .ok ⟨u⟩
  | .error fault => .error (.invalidId (k.name ++ ": " ++ fault.message))

/-- The `n`-th identifier that is handed out. -/
def numbered (n : Nat) : Id k := ⟨Uuid.numbered n⟩

end Id

end Billing
