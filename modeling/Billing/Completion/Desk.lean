import Billing.Completion.Call

/-!
# The desk

All calls on one registry, numbered as they arrive, with the events that are brought to the
registry. Time is counted in milliseconds. Whatever happens at a moment is seen by a call that looks
around at that moment.
-/

namespace Billing.Completion

/-- The calls on one registry. -/
structure Desk (α : Type) where
  registry : Registry
  calls : List (Call α)
  now : Nat
  /-- The longest wait of any call, in milliseconds. -/
  maxWait : Nat

/-- Something that happens at the desk. -/
inductive Happening (α : Type) where
  /-- A call arrives. -/
  | arrive (context : CallContext) (completing : Bool) (timeout : Nat)
  /-- A call starts with the tags that were found for its account. -/
  | start (call : Nat) (tags : Except DomainError ControlTagSet)
  | enlist (call : Nat)
  /-- The command of a call has come to its end. -/
  | conclude (call : Nat) (result : Except DomainError (Executed α))
  | poll (call : Nat)
  | interrupt (call : Nat)
  | drop (call : Nat)
  /-- An event is brought to the registry. -/
  | event (token : CorrelationToken) (event : DomainEvent)

namespace Desk

variable {α : Type}

/-- An empty desk on a registry. -/
def opened (registry : Registry) (maxWait : Nat) : Desk α := ⟨registry, [], 0, maxWait⟩

/-- One call, with the registry, does something. -/
def onCall (d : Desk α) (i : Nat) (f : Call α → Registry → Call α × Registry) : Desk α :=
  match d.calls[i]? with
  | none => d
  | some c =>
    let (c, r) := f c d.registry
    { d with calls := d.calls.set i c, registry := r }

/-- Brings an event to the registry. -/
def dispatch (d : Desk α) (token : CorrelationToken) (event : DomainEvent) : Delivery × Desk α :=
  let (delivery, r) := d.registry.dispatch token event
  (delivery, { d with registry := r })

/-- What a happening makes of the desk. -/
def step (d : Desk α) : Happening α → Desk α
  | .arrive context completing timeout =>
    { d with calls := d.calls ++ [⟨context, completing, timeout, false, .arrived⟩] }
  | .start i tags => d.onCall i fun c r => c.start r d.now tags
  | .enlist i => d.onCall i fun c r => c.enlist r d.now
  | .conclude i result => d.onCall i fun c r => c.conclude r d.now d.maxWait result
  | .poll i => d.onCall i fun c r => c.poll r d.now
  | .interrupt i => d.onCall i fun c r => ({ c with interrupted := true }, r)
  | .drop i => d.onCall i fun c r => c.drop r d.now
  | .event token event => (d.dispatch token event).2

/-- All calls do something, one after another. -/
def onAllCalls (d : Desk α) (f : Call α → Registry → Call α × Registry) : Desk α :=
  (List.range d.calls.length).foldl (fun d i => d.onCall i f) d

/-- All calls look around. -/
def pollAll (d : Desk α) : Desk α := d.onAllCalls fun c r => c.poll r d.now

/-- Time moves on to a later moment. Before it moves, all calls look around; then those whose
deadline lies between look around at their deadline. -/
def advance (d : Desk α) (moment : Nat) : Desk α :=
  if d.now < moment then
    { d.pollAll.onAllCalls fun c r => c.expire r moment with now := moment }
  else d

/-- The earliest deadline of a waiting call. -/
def nextDeadline? (d : Desk α) : Option Nat := (d.calls.filterMap fun c => c.phase.deadline?).min?

/-- A call has ended. -/
def hasEnded (d : Desk α) (i : Nat) : Bool :=
  match d.calls[i]? with
  | some c => c.phase.isEnded
  | none => false

end Desk

end Billing.Completion
