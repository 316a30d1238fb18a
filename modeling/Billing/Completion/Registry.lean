import Billing.Completion.Waiter

/-!
# The registry of waiters

At most one waiter is registered for a token. The registry is divided into sixteen shards by a hash
of the token; which shard holds a token shows in no answer.
-/

namespace Billing.Completion

/-- A refused registration: somebody waits under the token already. -/
structure AlreadyRegistered where
  token : CorrelationToken
  deriving DecidableEq

/-- The wording of a refused registration. -/
def AlreadyRegistered.message (e : AlreadyRegistered) : String :=
  "a waiter is already registered for token " ++ e.token.text

/-- The waiters that are registered, and which waiters have been completed. -/
structure Registry where
  hash : CorrelationToken → UInt64
  shards : Vector (List Waiter) 16
  /-- How many waiters have been made. -/
  made : Nat
  /-- The numbers of the completed waiters. -/
  completed : List Nat

namespace Registry

/-- A registry without waiters. -/
def empty (hash : CorrelationToken → UInt64) : Registry := ⟨hash, Vector.replicate 16 [], 0, []⟩

/-- The shard of a token. -/
def shardOf (r : Registry) (token : CorrelationToken) : Fin 16 :=
  ⟨(r.hash token).toNat % 16, Nat.mod_lt _ (by decide)⟩

/-- The waiter registered for a token. -/
def find? (r : Registry) (token : CorrelationToken) : Option Waiter :=
  (r.shards[r.shardOf token]).find? fun w => w.token = token

/-- Somebody is registered for a token. -/
def contains (r : Registry) (token : CorrelationToken) : Bool := (r.find? token).isSome

/-- The number of registered waiters. -/
def size (r : Registry) : Nat := r.shards.toList.foldl (fun n waiters => n + waiters.length) 0

/-- The state of a waiter, registered or not. -/
def state (r : Registry) (w : Waiter) : WaiterState :=
  if w.number ∈ r.completed then .completed else .armed

/-- Changes the shard of a token. -/
def onShard (r : Registry) (token : CorrelationToken) (f : List Waiter → List Waiter) : Registry :=
  let i := r.shardOf token
  { r with shards := r.shards.set i (f r.shards[i]) }

/-- A new waiter, armed and not registered. -/
def make (r : Registry) (token : CorrelationToken) (tags : ControlTagSet) : Waiter × Registry :=
  (⟨r.made, token, tags⟩, { r with made := r.made + 1 })

/-- Registers a waiter for its token, unless somebody is registered for it. -/
def register (r : Registry) (w : Waiter) : Except AlreadyRegistered Registry :=
  if r.contains w.token then .error ⟨w.token⟩ else .ok (r.onShard w.token (w :: ·))

/-- Takes the waiter of a token out of the registry. -/
def unregister (r : Registry) (token : CorrelationToken) : Option Waiter × Registry :=
  (r.find? token, r.onShard token (·.filter fun w => w.token ≠ token))

/-- Records the state of a waiter. -/
def record (r : Registry) (w : Waiter) : WaiterState → Registry
  | .armed => r
  | .completed =>
    if w.number ∈ r.completed then r else { r with completed := w.number :: r.completed }

/-- Completes a waiter; the answer tells whether it was armed until then. -/
def complete (r : Registry) (w : Waiter) : Bool × Registry :=
  (r.state w == .armed, r.record w .completed)

/-- Brings an event to a waiter. -/
def deliver (r : Registry) (w : Waiter) (event : DomainEvent) : Delivery × Registry :=
  let (delivery, state) := w.deliver (r.state w) event
  (delivery, r.record w state)

/-- Brings an event to the waiter registered for a token. -/
def dispatch (r : Registry) (token : CorrelationToken) (event : DomainEvent) : Delivery × Registry :=
  match r.find? token with
  | some w => r.deliver w event
  | none => (.noWaiter, r)

/-- Brings events in order to the waiters registered for their tokens. -/
def dispatchAll (r : Registry) (events : List (CorrelationToken × DomainEvent)) : Registry :=
  events.foldl (fun r e => (r.dispatch e.1 e.2).2) r

end Registry

end Billing.Completion
