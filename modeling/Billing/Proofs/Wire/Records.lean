import Billing.Proofs.Wire.Scalar
import Billing.Wire.Records

/-!
# Records are read back

Timelines show records in full: every field of a record is read back from its full form.
-/

namespace Billing

open Json (Reads Reshaped Shows)

/-! ## Values and records -/

/-- A record as JSON: it is written from it, and it is read back from it. -/
structure Json.Tells {α : Type} (toJson : α → Json) (ofJson? : Json → Option α) (v : Json)
    (a : α) : Prop where
  written : v = toJson a
  read : ofJson? v = some a

/-- A list of records as JSON. -/
def Json.Lists {α : Type} (toJson : α → Json) (ofJson? : Json → Option α) :
    Json → List α → Prop :=
  Tells (fun records => .array (records.map toJson)) fun v => v.list? ofJson?

section Tells

variable {α : Type} {toJson : α → Json} {ofJson? : Json → Option α}
  (h : ∀ a, ofJson? (toJson a) = some a)
include h

theorem Json.tells_toJson (a : α) : Tells toJson ofJson? (toJson a) a := ⟨rfl, h a⟩

theorem Json.lists_array (records : List α) :
    Lists toJson ofJson? (.array (records.map toJson)) records where
  written := rfl
  read := by
    show (records.map toJson).mapM ofJson? = some records
    induction records with
    | nil => rfl
    | cons a as ih => rw [List.map_cons, List.mapM_cons, h, ih]; rfl

end Tells

/-- An object in which the members are those that it was written with. -/
theorem Json.shows_object {ms : List (String × Json)} (hn : (ms.map (·.1)).Nodup) :
    (Json.object ms).Shows ms := (Reshaped.refl ms).shows hn

/-! ## Names -/

/-- The state with a name. -/
def SubscriptionState.ofName? : String → Option SubscriptionState
  | "ACTIVE" => some .active
  | "PENDING_CANCEL" => some .pendingCancel
  | "CANCELLED" => some .cancelled
  | _ => none

/-- The status with a name. -/
def InvoiceStatus.ofName? : String → Option InvoiceStatus
  | "DRAFT" => some .draft
  | "COMMITTED" => some .committed
  | _ => none

/-- The status with a name. -/
def PaymentStatus.ofName? : String → Option PaymentStatus
  | "SUCCESS" => some .success
  | "FAILED" => some .failed
  | _ => none

/-- Reads a name. -/
def Json.named? {α : Type} (ofName? : String → Option α) (v : Json) : Option α :=
  v.string?.bind ofName?

theorem SubscriptionState.reads (x : SubscriptionState) :
    Reads (Json.named? ofName?) (.string x.name) x where
  ne_null := fun h => by cases h
  read := by cases x <;> rfl

theorem InvoiceStatus.reads (x : InvoiceStatus) :
    Reads (Json.named? ofName?) (.string x.name) x where
  ne_null := fun h => by cases h
  read := by cases x <;> rfl

theorem PaymentStatus.reads (x : PaymentStatus) :
    Reads (Json.named? ofName?) (.string x.name) x where
  ne_null := fun h => by cases h
  read := by cases x <;> rfl

/-- Reads a whole number. -/
def Json.whole? : Json → Option Int
  | .number (.integer n) => some n
  | _ => none

/-- Reads a truth value. -/
def Json.boolean? : Json → Option Bool
  | .boolean b => some b
  | _ => none

theorem Json.reads_int (n : Int) : Reads whole? (.int n) n := ⟨fun h => (by cases h), rfl⟩

theorem Json.reads_boolean (b : Bool) : Reads boolean? (.boolean b) b :=
  ⟨fun h => (by cases h), rfl⟩

/-! ## Accounts -/

namespace Account

/-- Reads an account in full. -/
def ofJson? (v : Json) : Option Account := do
  let id ← v.required? "id" Id.ofJson?
  let name ← v.required? "name" Json.string?
  let minutes ← v.required? "utcOffsetMinutes" Json.whole?
  let tags ← v.required? "controlTags" ControlTagSet.ofJson?
  let paymentMethod ← v.required? "paymentMethod" Json.boolean?
  let createdAt ← v.required? "createdAt" Instant.ofJson?
  some ⟨id, name, minutes, tags, paymentMethod, createdAt⟩

theorem ofJson?_toJson (a : Account) : ofJson? a.toJson = some a := by
  have h : a.toJson.Shows _ := Json.shows_object (by simp)
  have hid := h.required?_eq (by simp) (k := "id") a.id.reads
  have hname := h.required?_eq (by simp) (k := "name") (Json.reads_string a.name)
  have hminutes := h.required?_eq (by simp) (k := "utcOffsetMinutes")
    (Json.reads_int a.utcOffsetMinutes)
  have htags := h.required?_eq (by simp) (k := "controlTags") a.tags.reads
  have hmethod := h.required?_eq (by simp) (k := "paymentMethod")
    (Json.reads_boolean a.paymentMethod)
  have hcreated := h.required?_eq (by simp) (k := "createdAt") a.createdAt.reads
  simp [ofJson?, hid, hname, hminutes, htags, hmethod, hcreated]

end Account

/-! ## Subscriptions -/

/-- Reads a pending change. -/
def PendingChange.ofJson? (v : Json) : Option PendingChange := do
  let plan ← v.required? "planName" Json.string?
  let effective ← v.required? "effectiveDate" Date.ofJson?
  some ⟨plan, effective⟩

theorem PendingChange.reads (c : PendingChange) : Reads ofJson? c.toJson c where
  ne_null := fun h => by cases h
  read := by
    have h : c.toJson.Shows _ := Json.shows_object (by simp)
    have hplan := h.required?_eq (by simp) (k := "planName") (Json.reads_string c.plan)
    have hdate := h.required?_eq (by simp) (k := "effectiveDate") c.effective.reads
    simp [ofJson?, hplan, hdate]

namespace Subscription

/-- Reads a subscription in full. -/
def ofJson? (v : Json) : Option Subscription := do
  let id ← v.required? "id" Id.ofJson?
  let bundle ← v.required? "bundleId" Id.ofJson?
  let account ← v.required? "accountId" Id.ofJson?
  let plan ← v.required? "planName" Json.string?
  let state ← v.required? "state" (Json.named? SubscriptionState.ofName?)
  let startDate ← v.required? "startDate" Date.ofJson?
  let billingEndDate ← v.nullable? "billingEndDate" Date.ofJson?
  let pendingChange ← v.nullable? "pendingChange" PendingChange.ofJson?
  let createdAt ← v.required? "createdAt" Instant.ofJson?
  some ⟨id, bundle, account, plan, state, startDate, billingEndDate, pendingChange, createdAt⟩

theorem ofJson?_toJson (x : Subscription) : ofJson? x.toJson = some x := by
  have h : x.toJson.Shows _ := Json.shows_object (by simp [members])
  have hid := h.required?_eq (by simp [members]) (k := "id") x.id.reads
  have hbundle := h.required?_eq (by simp [members]) (k := "bundleId") x.bundle.reads
  have haccount := h.required?_eq (by simp [members]) (k := "accountId") x.account.reads
  have hplan := h.required?_eq (by simp [members]) (k := "planName") (Json.reads_string x.plan)
  have hstate := h.required?_eq (by simp [members]) (k := "state") x.state.reads
  have hstart := h.required?_eq (by simp [members]) (k := "startDate") x.startDate.reads
  have hstop := h.nullable?_eq (by simp [members]) (k := "billingEndDate")
    (o := x.billingEndDate) Date.reads
  have hpending := h.nullable?_eq (by simp [members]) (k := "pendingChange")
    (o := x.pendingChange) PendingChange.reads
  have hcreated := h.required?_eq (by simp [members]) (k := "createdAt") x.createdAt.reads
  simp [ofJson?, hid, hbundle, haccount, hplan, hstate, hstart, hstop, hpending, hcreated]

end Subscription

/-! ## Invoices and payments -/

namespace Invoice

/-- Reads an invoice in full. -/
def ofJson? (v : Json) : Option Invoice := do
  let id ← v.required? "id" Id.ofJson?
  let account ← v.required? "accountId" Id.ofJson?
  let subscription ← v.required? "subscriptionId" Id.ofJson?
  let status ← v.required? "status" (Json.named? InvoiceStatus.ofName?)
  let amount ← v.required? "amount" Amount.ofJson?
  let balance ← v.required? "balance" Amount.ofJson?
  let createdAt ← v.required? "createdAt" Instant.ofJson?
  some ⟨id, account, subscription, status, amount, balance, createdAt⟩

theorem ofJson?_toJson (i : Invoice) : ofJson? i.toJson = some i := by
  have h : i.toJson.Shows _ := Json.shows_object (by simp)
  have hid := h.required?_eq (by simp) (k := "id") i.id.reads
  have haccount := h.required?_eq (by simp) (k := "accountId") i.account.reads
  have hsubscription := h.required?_eq (by simp) (k := "subscriptionId") i.subscription.reads
  have hstatus := h.required?_eq (by simp) (k := "status") i.status.reads
  have hamount := h.required?_eq (by simp) (k := "amount") i.amount.reads
  have hbalance := h.required?_eq (by simp) (k := "balance") i.balance.reads
  have hcreated := h.required?_eq (by simp) (k := "createdAt") i.createdAt.reads
  simp [ofJson?, hid, haccount, hsubscription, hstatus, hamount, hbalance, hcreated]

end Invoice

namespace Payment

/-- Reads a payment in full. -/
def ofJson? (v : Json) : Option Payment := do
  let id ← v.required? "id" Id.ofJson?
  let account ← v.required? "accountId" Id.ofJson?
  let invoice ← v.required? "invoiceId" Id.ofJson?
  let amount ← v.required? "amount" Amount.ofJson?
  let status ← v.required? "status" (Json.named? PaymentStatus.ofName?)
  let message ← v.nullable? "message" Json.string?
  let createdAt ← v.required? "createdAt" Instant.ofJson?
  some ⟨id, account, invoice, amount, status, message, createdAt⟩

theorem ofJson?_toJson (p : Payment) : ofJson? p.toJson = some p := by
  have h : p.toJson.Shows _ := Json.shows_object (by simp)
  have hid := h.required?_eq (by simp) (k := "id") p.id.reads
  have haccount := h.required?_eq (by simp) (k := "accountId") p.account.reads
  have hinvoice := h.required?_eq (by simp) (k := "invoiceId") p.invoice.reads
  have hamount := h.required?_eq (by simp) (k := "amount") p.amount.reads
  have hstatus := h.required?_eq (by simp) (k := "status") p.status.reads
  have hmessage := h.nullable?_eq (by simp) (k := "message") (o := p.message) Json.reads_string
  have hcreated := h.required?_eq (by simp) (k := "createdAt") p.createdAt.reads
  simp [ofJson?, hid, haccount, hinvoice, hamount, hstatus, hmessage, hcreated]

end Payment

/-! ## The audit log -/

namespace AuditEntry

/-- Reads an entry of the audit log. -/
def ofJson? (v : Json) : Option AuditEntry := do
  let token ← v.required? "token" Id.ofJson?
  let account ← v.required? "accountId" Id.ofJson?
  let action ← v.required? "action" Json.string?
  let createdBy ← v.nullable? "createdBy" Json.string?
  let reason ← v.nullable? "reason" Json.string?
  let comment ← v.nullable? "comment" Json.string?
  let moment ← v.required? "at" Instant.ofJson?
  some ⟨token, account, action, ⟨createdBy, reason, comment⟩, moment⟩

theorem ofJson?_toJson (e : AuditEntry) : ofJson? e.toJson = some e := by
  have h : e.toJson.Shows _ := Json.shows_object (by simp)
  have htoken := h.required?_eq (by simp) (k := "token") e.token.reads
  have haccount := h.required?_eq (by simp) (k := "accountId") e.account.reads
  have haction := h.required?_eq (by simp) (k := "action") (Json.reads_string e.action)
  have hcreator := h.nullable?_eq (by simp) (k := "createdBy") (o := e.note.createdBy)
    Json.reads_string
  have hreason := h.nullable?_eq (by simp) (k := "reason") (o := e.note.reason) Json.reads_string
  have hcomment := h.nullable?_eq (by simp) (k := "comment") (o := e.note.comment)
    Json.reads_string
  have hmoment := h.required?_eq (by simp) (k := "at") e.moment.reads
  simp [ofJson?, htoken, haccount, haction, hcreator, hreason, hcomment, hmoment]

end AuditEntry

end Billing
