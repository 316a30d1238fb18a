import Billing.Completion.Context
import Billing.Completion.Timing
import Billing.Pipeline.Works
import Billing.Store.Catalog

/-!
# Commands

What can be done to a subscription: it is created, its plan is changed, or it is cancelled. A
command reads the records, changes the subscription in one step, writes to the audit log, and starts
a billing run if it takes effect at once. Other commands and runs may come between these stages.
-/

namespace Billing.Service

open Pipeline (Works)

/-- What is to be done to a subscription. -/
inductive Command where
  | create (account : AccountId) (plan : String)
  /-- Changes the plan on a date, or today if there is none. -/
  | changePlan (subscription : SubscriptionId) (plan : String) (date : Option Date)
  /-- Cancels on a date, or today if there is none. -/
  | cancel (subscription : SubscriptionId) (date : Option Date)
  deriving DecidableEq

/-- What a command has read: the account, the amount to bill, and the local date. -/
structure Reading where
  account : Account
  amount : Amount
  today : Date
  deriving DecidableEq

/-- How far a command has come. -/
inductive Stage where
  | reading
  /-- It changes the subscription. -/
  | updating (r : Reading)
  /-- The subscription has been changed; it writes to the audit log. -/
  | auditing (r : Reading) (changed : Subscription)
  /-- It starts a billing run if it takes effect at once. -/
  | launching (r : Reading) (changed : Subscription)
  /-- It has come to its end; the number is that of the billing run that it started. -/
  | done (result : Except DomainError (Executed Subscription)) (run : Option Nat)
  /-- A local date was out of range. -/
  | crashed

/-- Writes to the audit log what a call does to an account now. -/
def audit (w : Works) (x : Completion.CallContext) (account : AccountId) (action : String) :
    Works :=
  w.withStore (w.store.recordAudit (.ofContext x account action w.clock))

namespace Command

/-- The name of a command in the audit log. -/
def action : Command → String
  | .create .. => "subscription.create"
  | .changePlan .. => "subscription.change_plan"
  | .cancel .. => "subscription.cancel"

/-- What a command reads, or the refusal that it meets first. -/
def read (c : Command) (catalog : Catalog) (s : Store) : Except DomainError (Account × Amount) :=
  match c with
  | .create account plan => do
    let a ← s.account account
    let price ← catalog.price plan
    .ok (a, price)
  | .changePlan subscription plan _ => do
    let x ← s.subscription subscription
    let a ← s.account x.account
    let price ← catalog.price plan
    .ok (a, price)
  | .cancel subscription _ => do
    let x ← s.subscription subscription
    let a ← s.account x.account
    .ok (a, .zero)

/-- A new subscription from today on. -/
def newSubscription (r : Reading) (plan : String) (fresh : Nat) (now : Instant) : Subscription where
  id := .numbered fresh
  bundle := .numbered (fresh + 1)
  account := r.account.id
  plan := plan
  state := .active
  startDate := r.today
  billingEndDate := none
  pendingChange := none
  createdAt := now

/-- A change was made: the answer is the subscription as it is now. -/
def made (x : Subscription) : Except DomainError Subscription × Subscription := (.ok x, x)

/-- The change of a plan: at once, or pending if its date is after today. The answer stands beside
what the subscription is left as. -/
def changedPlan (plan : String) (effective today : Date) (x : Subscription) :
    Except DomainError Subscription × Subscription :=
  if x.state ≠ .active then
    (.error (.invariant ("subscription " ++ x.id.text ++ " is not active")), x)
  else if x.plan = plan ∧ x.pendingChange = none then
    (.error (.validation ("subscription is already on " ++ plan)), x)
  else if today < effective then made { x with pendingChange := some ⟨plan, effective⟩ }
  else made { x with plan, pendingChange := none }

/-- The cancellation: at once, or pending if the end is after today. The answer stands beside what
the subscription is left as. -/
def cancelled (stop today : Date) (x : Subscription) :
    Except DomainError Subscription × Subscription :=
  if x.state ≠ .active then
    (.error (.invariant ("subscription " ++ x.id.text ++ " is already cancelled")), x)
  else if stop < x.startDate then
    (.error (.validation "cancellation date precedes start date"), x)
  else
    made { x with
      billingEndDate := some stop
      pendingChange := none
      state := if today < stop then .pendingCancel else .cancelled }

/-- The change that a command makes in one step. -/
def update (c : Command) (r : Reading) (w : Works) : Except DomainError Subscription × Works :=
  match c with
  | .create _ plan =>
    let x := newSubscription r plan w.books.fresh w.clock
    (.ok x, { w with books := ⟨w.store.insertSubscription x, w.books.fresh + 2⟩ })
  | .changePlan subscription plan date =>
    let (answer, s) :=
      w.store.updateSubscription subscription (changedPlan plan (date.getD r.today) r.today)
    (answer, w.withStore s)
  | .cancel subscription date =>
    let (answer, s) :=
      w.store.updateSubscription subscription (cancelled (date.getD r.today) r.today)
    (answer, w.withStore s)

/-- When a command takes effect that has changed a subscription, if the local date is in range. A
change of plan takes effect at once if the plan is the one asked for. -/
def timing? (c : Command) (r : Reading) (changed : Subscription) (now : Instant) :
    Option EffectTiming :=
  match c with
  | .create .. => some .immediate
  | .changePlan _ plan _ =>
    if changed.plan = plan then some .immediate
    else
      EffectTiming.forAccount? (changed.pendingChange.toList.map (·.effective)) now r.account.offset
  | .cancel .. => EffectTiming.forAccount? changed.billingEndDate.toList now r.account.offset

/-- The transition of a subscription that a command brings about. -/
def transition : Command → Transition
  | .create .. => .create
  | .changePlan .. => .change
  | .cancel .. => .cancel

/-- What is to be billed for a command. -/
def order (c : Command) (token : CorrelationToken) (r : Reading) (changed : Subscription) :
    Pipeline.Order :=
  ⟨token, r.account.id, changed.id, c.transition, r.amount⟩

/-- A command goes through one stage. -/
def step (c : Command) (x : Completion.CallContext) (catalog : Catalog) (w : Works) :
    Stage → Stage × Works
  | .reading =>
    match c.read catalog w.store with
    | .error e => (.done (.error e) none, w)
    | .ok (a, amount) =>
      match a.today? w.clock with
      | none => (.crashed, w)
      | some today => (.updating ⟨a, amount, today⟩, w)
  | .updating r =>
    match c.update r w with
    | (.error e, w) => (.done (.error e) none, w)
    | (.ok changed, w) => (.auditing r changed, w)
  | .auditing r changed => (.launching r changed, audit w x r.account.id c.action)
  | .launching r changed =>
    match c.timing? r changed w.clock with
    | none => (.crashed, w)
    | some .immediate =>
      let (n, w) := w.start (c.order x.token r changed)
      (.done (.ok (.immediate changed)) (some n), w)
    | some (.deferred effective) => (.done (.ok (.deferred changed effective)) none, w)
  | stage => (stage, w)

/-- A command goes through all its stages, with nothing between them. -/
def run (c : Command) (x : Completion.CallContext) (catalog : Catalog) (w : Works) :
    Stage × Works :=
  let (s, w) := c.step x catalog w .reading
  let (s, w) := c.step x catalog w s
  let (s, w) := c.step x catalog w s
  c.step x catalog w s

end Command

/-! ## Accounts -/

/-- What has been done to an account and is still to be written to the audit log. -/
structure Notice where
  context : Completion.CallContext
  account : AccountId
  action : String
  deriving DecidableEq

/-- Creates an account. -/
def createAccount (w : Works) (n : NewAccount) : Except DomainError Account × Works :=
  match Account.create (.numbered w.books.fresh) n w.clock with
  | .error e => (.error e, w)
  | .ok a => (.ok a, { w with books := ⟨w.store.insertAccount a, w.books.fresh + 1⟩ })

/-- Replaces the tags of an account. -/
def replaceTags (w : Works) (id : AccountId) (tags : ControlTagSet) :
    Except DomainError Account × Works :=
  match w.store.setTags id tags with
  | .error e => (.error e, w)
  | .ok (a, s) => (.ok a, w.withStore s)

end Billing.Service
