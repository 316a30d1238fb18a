import Billing.Completion.Policy
import Billing.Identifier

/-!
# Waiters

A waiter stands for a call that waits for its billing to settle. It is armed until the first event
that settles the billing under the tags which the waiter was made with; then it is completed for
good.
-/

namespace Billing.Completion

/-- A waiter: its number, the token that it waits for, and the tags that decide for it. -/
structure Waiter where
  number : Nat
  token : CorrelationToken
  tags : ControlTagSet
  deriving DecidableEq

/-- Whether the billing that is waited for has settled. -/
inductive WaiterState where
  | armed
  | completed
  deriving DecidableEq

/-- What became of an event that was brought to a waiter. -/
inductive Delivery where
  /-- Nobody waits under the token of the event. -/
  | noWaiter
  /-- The event settles nothing. -/
  | pending
  /-- The event completed the waiter. -/
  | completed
  /-- The waiter had been completed before. -/
  | alreadyCompleted
  deriving DecidableEq

/-- What becomes of an event that is brought to a waiter in some state. -/
def Waiter.deliver (w : Waiter) (s : WaiterState) (event : DomainEvent) : Delivery × WaiterState :=
  match Decision.of w.tags event, s with
  | .keepWaiting, s => (.pending, s)
  | .complete, .armed => (.completed, .completed)
  | .complete, .completed => (.alreadyCompleted, .completed)

/-! ## Waiting -/

/-- How a wait ended. -/
inductive WaitResult where
  | completed
  | timedOut
  deriving DecidableEq

/-- Events on their way, each with the time of its arrival, in order of these times. -/
abbrev Arrivals := List (Nat × DomainEvent)

/-- Adds an event behind those that arrive at the same time or before. -/
def Arrivals.insert (time : Nat) (event : DomainEvent) : Arrivals → Arrivals
  | [] => [(time, event)]
  | (t, e) :: rest =>
    if t ≤ time then (t, e) :: Arrivals.insert time event rest
    else (time, event) :: (t, e) :: rest

/-- A waiter on its own, with a time of day and the events on their way to it. -/
structure Watch where
  waiter : Waiter
  state : WaiterState
  now : Nat
  arrivals : Arrivals

namespace Watch

/-- Lets time pass up to a moment; all events up to then arrive. -/
def pass (w : Watch) (moment : Nat) : Watch :=
  let due := w.arrivals.takeWhile fun a => a.1 ≤ moment
  { w with
    state := due.foldl (fun s a => (w.waiter.deliver s a.2).2) w.state
    now := moment
    arrivals := w.arrivals.dropWhile fun a => a.1 ≤ moment }

/-- Waits up to a deadline, or until an event on its way completes the waiter. -/
def waitUntil (w : Watch) (deadline : Nat) : WaitResult × Watch :=
  match w.state with
  | .completed => (.completed, w)
  | .armed =>
    match w.arrivals.find? fun a => a.1 ≤ deadline ∧ settles w.waiter.tags a.2 with
    | some (time, _) => (.completed, w.pass (max w.now time))
    | none => (.timedOut, w.pass deadline)

end Watch

end Billing.Completion
