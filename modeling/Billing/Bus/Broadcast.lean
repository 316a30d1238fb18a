/-!
# The bus

A bus brings every message to every subscription that was there when it was published, in the order
of publication. A dropped subscription is forgotten at the next publication.
-/

namespace Billing.Bus

/-- A subscription: the messages that it has yet to take, and whether anybody holds it. -/
structure Subscription (μ : Type) where
  queue : List μ
  held : Bool
  deriving DecidableEq

/-- A bus, with all subscriptions ever made, by number. -/
structure Broadcast (μ : Type) where
  subscriptions : List (Subscription μ)
  /-- The numbers of the subscriptions to which messages are sent. -/
  subscribers : List Nat
  isOpen : Bool
  deriving DecidableEq

/-- What is found by somebody who asks for a message. -/
inductive Reception (μ : Type) where
  | message (m : μ)
  /-- There is no message yet. -/
  | empty
  /-- There is no message, and none will come. -/
  | disconnected
  deriving DecidableEq

/-- The wording for somebody who waits for a message where none will come. -/
def closedMessage : String := "receiving on a closed channel"

namespace Broadcast

variable {μ : Type}

/-- A bus without subscriptions. -/
def empty : Broadcast μ := ⟨[], [], true⟩

/-- The number of subscriptions to which messages are sent. -/
def subscriberCount (b : Broadcast μ) : Nat := b.subscribers.length

/-- A subscription is held by somebody. -/
def isHeld (b : Broadcast μ) (n : Nat) : Bool :=
  match b.subscriptions[n]? with
  | some s => s.held
  | none => false

/-- Makes a new subscription; the answer is its number. A closed bus sends it nothing. -/
def subscribe (b : Broadcast μ) : Nat × Broadcast μ :=
  let n := b.subscriptions.length
  (n,
    { b with
      subscriptions := b.subscriptions ++ [⟨[], true⟩]
      subscribers := if b.isOpen then b.subscribers ++ [n] else b.subscribers })

/-- Nobody holds a subscription any more; what it had yet to take is lost. -/
def drop (b : Broadcast μ) (n : Nat) : Broadcast μ :=
  { b with subscriptions := b.subscriptions.modify n fun _ => ⟨[], false⟩ }

/-- Publishes a message: it is queued for every subscriber that is held, and all others are
forgotten. -/
def publish (b : Broadcast μ) (m : μ) : Broadcast μ :=
  let subscribers := b.subscribers.filter b.isHeld
  { b with
    subscriptions := subscribers.foldl
      (fun ss n => ss.modify n fun s => { s with queue := s.queue ++ [m] }) b.subscriptions
    subscribers }

/-- Publishes messages in order. -/
def publishAll (b : Broadcast μ) (ms : List μ) : Broadcast μ := ms.foldl publish b

/-- Takes the next message of a subscription. -/
def receive (b : Broadcast μ) (n : Nat) : Reception μ × Broadcast μ :=
  match b.subscriptions[n]? with
  | none => (.disconnected, b)
  | some s =>
    match s.queue with
    | m :: queue =>
      (.message m, { b with subscriptions := b.subscriptions.modify n fun s => { s with queue } })
    | [] => (if b.subscribers.contains n then .empty else .disconnected, b)

/-- Closes the bus; messages that are queued can still be taken. -/
def close (b : Broadcast μ) : Broadcast μ := { b with subscribers := [], isOpen := false }

end Broadcast

end Billing.Bus
