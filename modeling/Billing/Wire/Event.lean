import Billing.Envelope
import Billing.Wire.Scalar

/-!
# Events and envelopes as JSON

An event is an object whose member `kind` tells which other members it has. Optional identifiers
are written as null and may be left out; members of other names are ignored. An event may also be
given as an array of its kind and its members in order.
-/

namespace Billing

/-- Reads a transition: its name, or its name as the only key of an object without content. -/
def Transition.ofJson? : Json → Option Transition
  | .object [(k, .object [])] => ofName? k
  | v => v.name?.bind ofName?

/-- Reads a count of 32 bits. -/
def countOfJson? (v : Json) : Option UInt32 :=
  (v.integer? 0 4294967295).map fun n => UInt32.ofNat n.toNat

/-- A kind of event as JSON. -/
def EventKind.toJson (k : EventKind) : Json := .string k.tag

/-- Reads a kind of event. -/
def EventKind.ofJson? (v : Json) : Option EventKind := v.name?.bind ofTag?

namespace DomainEvent

/-- The members of an event besides its kind. -/
def members : DomainEvent → List (String × Json)
  | .subscriptionTransition s t n =>
    [("subscription_id", s.toJson), ("transition", .string t.name),
      ("remaining_events", .int n.toNat)]
  | .blockingStateChange s m => [("subscription_id", .optional Id.toJson s), ("state_name", .string m)]
  | .invoiceCreated i a => [("invoice_id", i.toJson), ("amount_owed", a.toJson)]
  | .emptyInvoice => []
  | .paymentInfo p i a =>
    [("payment_id", p.toJson), ("invoice_id", .optional Id.toJson i), ("amount", a.toJson)]
  | .paymentError i m => [("invoice_id", .optional Id.toJson i), ("message", .string m)]
  | .paymentPluginError i m => [("invoice_id", .optional Id.toJson i), ("message", .string m)]
  | .invoicePaymentInfo i p a =>
    [("invoice_id", i.toJson), ("payment_id", p.toJson), ("amount", a.toJson)]
  | .invoicePaymentError i m => [("invoice_id", i.toJson), ("message", .string m)]

/-- An event as JSON. -/
def toJson (e : DomainEvent) : Json := .object (("kind", .string e.kind.tag) :: e.members)

/-- Reads the members of an event of a given kind. -/
def ofMembers? (v : Json) : EventKind → Option DomainEvent
  | .subscriptionTransition => do
    let s ← v.required? "subscription_id" Id.ofJson?
    let t ← v.required? "transition" Transition.ofJson?
    let n ← v.required? "remaining_events" countOfJson?
    some (.subscriptionTransition s t n)
  | .blockingStateChange => do
    let s ← v.nullable? "subscription_id" Id.ofJson?
    let m ← v.required? "state_name" Json.string?
    some (.blockingStateChange s m)
  | .invoiceCreated => do
    let i ← v.required? "invoice_id" Id.ofJson?
    let a ← v.required? "amount_owed" Amount.ofJson?
    some (.invoiceCreated i a)
  | .emptyInvoice => some .emptyInvoice
  | .paymentInfo => do
    let p ← v.required? "payment_id" Id.ofJson?
    let i ← v.nullable? "invoice_id" Id.ofJson?
    let a ← v.required? "amount" Amount.ofJson?
    some (.paymentInfo p i a)
  | .paymentError => do
    let i ← v.nullable? "invoice_id" Id.ofJson?
    let m ← v.required? "message" Json.string?
    some (.paymentError i m)
  | .paymentPluginError => do
    let i ← v.nullable? "invoice_id" Id.ofJson?
    let m ← v.required? "message" Json.string?
    some (.paymentPluginError i m)
  | .invoicePaymentInfo => do
    let i ← v.required? "invoice_id" Id.ofJson?
    let p ← v.required? "payment_id" Id.ofJson?
    let a ← v.required? "amount" Amount.ofJson?
    some (.invoicePaymentInfo i p a)
  | .invoicePaymentError => do
    let i ← v.required? "invoice_id" Id.ofJson?
    let m ← v.required? "message" Json.string?
    some (.invoicePaymentError i m)

/-- The names of the members of an event of a given kind, in order. -/
def memberNames : EventKind → List String
  | .subscriptionTransition => ["subscription_id", "transition", "remaining_events"]
  | .blockingStateChange => ["subscription_id", "state_name"]
  | .invoiceCreated => ["invoice_id", "amount_owed"]
  | .emptyInvoice => []
  | .paymentInfo => ["payment_id", "invoice_id", "amount"]
  | .paymentError => ["invoice_id", "message"]
  | .paymentPluginError => ["invoice_id", "message"]
  | .invoicePaymentInfo => ["invoice_id", "payment_id", "amount"]
  | .invoicePaymentError => ["invoice_id", "message"]

theorem map_fst_members (e : DomainEvent) : e.members.map (·.1) = memberNames e.kind := by
  cases e <;> rfl

/-- Reads an event: an object, or an array of its kind and all its members. -/
def ofJson? : Json → Option DomainEvent
  | .array (tag :: parts) => do
    let kind ← tag.string?.bind EventKind.ofTag?
    let names := memberNames kind
    if parts.length = names.length then ofMembers? (.object (names.zip parts)) kind else none
  | v => do
    let tag ← v.required? "kind" Json.string?
    let kind ← EventKind.ofTag? tag
    ofMembers? v kind

end DomainEvent

namespace BillingEnvelope

/-- An envelope as JSON. -/
def toJson (e : BillingEnvelope) : Json :=
  .object
    [("event_id", .string e.eventId.text), ("token", e.token.toJson),
      ("account_id", e.account.toJson), ("occurred_at", e.occurredAt.toJson),
      ("payload", e.payload.toJson)]

/-- Reads the parts of an envelope. -/
def ofParts? (id token account at_ payload : Json) : Option BillingEnvelope := do
  let id ← Uuid.ofJson? id
  let token ← Id.ofJson? token
  let account ← Id.ofJson? account
  let at_ ← Instant.ofJson? at_
  let payload ← DomainEvent.ofJson? payload
  some ⟨id, token, account, at_, payload⟩

/-- Reads an envelope: an object, or an array of its five parts in order. -/
def ofJson? : Json → Option BillingEnvelope
  | .array [id, token, account, at_, payload] => ofParts? id token account at_ payload
  | v => do
    let id ← v.field? "event_id"
    let token ← v.field? "token"
    let account ← v.field? "account_id"
    let at_ ← v.field? "occurred_at"
    let payload ← v.field? "payload"
    ofParts? id token account at_ payload

end BillingEnvelope

end Billing
