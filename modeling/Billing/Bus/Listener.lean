import Billing.Bus.Broadcast

/-!
# The listener

Two workers carry messages from a subscription to where they are dispatched. The forwarder takes a
message from the bus into its hand and puts it among the signals; the listener takes the signals in
order, dispatches each message, and stops at the first signal to stop. Signals behind that one are
never taken.
-/

namespace Billing.Bus

/-- What the listener is told. -/
inductive Signal (μ : Type) where
  | message (m : μ)
  | stop
  deriving DecidableEq

/-- The two workers and what is between them. -/
structure Listener (μ : Type) where
  /-- The number of the subscription. -/
  subscription : Nat
  /-- The message that the forwarder holds in its hand. -/
  hand : Option μ
  /-- The forwarder has not stopped. -/
  forwarding : Bool
  signals : List (Signal μ)
  /-- The listener has not stopped. -/
  listening : Bool
  deriving DecidableEq

namespace Listener

variable {μ : Type}

/-- Subscribes to a bus and sets both workers to work. -/
def spawn (b : Broadcast μ) : Listener μ × Broadcast μ :=
  let (n, b) := b.subscribe
  (⟨n, none, true, [], true⟩, b)

/-- The forwarder takes a message from the bus; it stops if no more will come. -/
def take (l : Listener μ) (b : Broadcast μ) : Listener μ × Broadcast μ :=
  if l.forwarding ∧ l.hand.isNone then
    match b.receive l.subscription with
    | (.message m, b) => ({ l with hand := some m }, b)
    | (.empty, b) => (l, b)
    | (.disconnected, b) => ({ l with forwarding := false }, b.drop l.subscription)
  else (l, b)

/-- The forwarder puts the message in its hand among the signals; it stops if nobody listens. -/
def forward (l : Listener μ) (b : Broadcast μ) : Listener μ × Broadcast μ :=
  match l.hand with
  | none => (l, b)
  | some m =>
    if l.listening then ({ l with hand := none, signals := l.signals ++ [.message m] }, b)
    else ({ l with hand := none, forwarding := false }, b.drop l.subscription)

/-- The listener takes the next signal; the answer is the message to dispatch, if it is one. -/
def listen (l : Listener μ) : Option μ × Listener μ :=
  if l.listening then
    match l.signals with
    | [] => (none, l)
    | .message m :: signals => (some m, { l with signals })
    | .stop :: _ => (none, { l with signals := [], listening := false })
  else (none, l)

/-- Tells the listener to stop, after the signals that are there already. -/
def requestStop (l : Listener μ) : Listener μ :=
  if l.listening then { l with signals := l.signals ++ [.stop] } else l

/-! ## Running both workers -/

/-- The listener takes all signals that are there; the answer holds the messages to dispatch. -/
def drain : Nat → Listener μ → List μ × Listener μ
  | 0, l => ([], l)
  | n + 1, l =>
    let (m, l) := l.listen
    let (ms, l) := drain n l
    (m.toList ++ ms, l)

/-- Both workers go on with at most so many messages of the bus. -/
def carry : Nat → Listener μ → Broadcast μ → List μ × Listener μ × Broadcast μ
  | 0, l, b => ([], l, b)
  | n + 1, l, b =>
    let (l, b) := l.take b
    let (l, b) := l.forward b
    let (ms, l) := l.drain l.signals.length
    let (more, l, b) := carry n l b
    (ms ++ more, l, b)

/-- The number of messages that wait at the bus. -/
def backlog (l : Listener μ) (b : Broadcast μ) : Nat :=
  match b.subscriptions[l.subscription]? with
  | some s => s.queue.length
  | none => 0

/-- Both workers go on until there is nothing left to do. -/
def settle (l : Listener μ) (b : Broadcast μ) : List μ × Listener μ × Broadcast μ :=
  carry (l.backlog b + 1) l b

/-- Stops the listener and waits until it has stopped; the answer holds the messages that it still
dispatches. -/
def shutDown (l : Listener μ) : List μ × Listener μ :=
  let l := l.requestStop
  l.drain l.signals.length

end Listener

end Billing.Bus
