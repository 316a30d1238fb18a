import Billing.Completion.Context
import Billing.Completion.Outcome
import Billing.Completion.Timing

/-!
# Calls

A call carries out one command. If it is to answer only when the billing of the command has settled,
it notes the tags of the account, registers a waiter under its token before the command runs, and
waits afterwards. However such a call ends, its waiter leaves the registry with it.
-/

namespace Billing.Completion

/-- How a call came to its end. -/
inductive Ending (α : Type) where
  | answered (result : CallResult α)
  /-- Nobody waits for the answer any more. -/
  | dropped

/-- How far a call has come. -/
inductive Phase (α : Type) where
  | arrived
  /-- The tags of the account have been noted. -/
  | noted (tags : ControlTagSet)
  /-- The command runs; the waiter is registered, if there is one. -/
  | running (waiter : Option Waiter)
  /-- The command was carried out; the call waits up to a deadline. -/
  | waiting (waiter : Waiter) (value : α) (deadline : Nat)
  | ended (ending : Ending α) (time : Nat)

/-- A call. -/
structure Call (α : Type) where
  context : CallContext
  /-- The answer is to wait until the billing has settled. -/
  completing : Bool
  /-- The longest wait that the caller asks for, in seconds. -/
  timeout : Nat
  interrupted : Bool
  phase : Phase α

/-- The registered waiter of a call in some phase. -/
def Phase.waiter? {α : Type} : Phase α → Option Waiter
  | .running waiter => waiter
  | .waiting waiter _ _ => some waiter
  | _ => none

/-- The deadline of a waiting call. -/
def Phase.deadline? {α : Type} : Phase α → Option Nat
  | .waiting _ _ deadline => some deadline
  | _ => none

/-- The call has ended. -/
def Phase.isEnded {α : Type} : Phase α → Bool
  | .ended .. => true
  | _ => false

/-- The longest wait of any call unless another is set: a minute, in milliseconds. -/
def defaultMaxWait : Nat := 60000

namespace Call

variable {α : Type}

/-- Ends a call; its waiter leaves the registry. -/
def leave (c : Call α) (r : Registry) (time : Nat) (ending : Ending α) : Call α × Registry :=
  ({ c with phase := .ended ending time },
    match c.phase.waiter? with
    | some w => (r.unregister w.token).2
    | none => r)

/-- Ends a call with a failure. -/
def fail (c : Call α) (r : Registry) (time : Nat) (e : CallError) : Call α × Registry :=
  c.leave r time (.answered (.error e))

/-- Ends a call with an outcome. -/
def answer (c : Call α) (r : Registry) (time : Nat) (o : Outcome α) : Call α × Registry :=
  c.leave r time (.answered (.ok o))

/-- The account whose tags an arrived call notes before its command runs. -/
def lookUp? (c : Call α) : Option AccountId :=
  match c.phase with
  | .arrived => if c.completing then c.context.account else none
  | _ => none

/-- An arrived call starts. A call that is to wait takes the tags that were found for its account;
any other call runs its command. -/
def start (c : Call α) (r : Registry) (now : Nat) (tags : Except DomainError ControlTagSet) :
    Call α × Registry :=
  match c.phase with
  | .arrived =>
    if c.completing then
      match c.context.account with
      | none => c.fail r now .missingAccount
      | some _ =>
        match tags with
        | .error e => c.fail r now (.ofDomain e)
        | .ok tags => ({ c with phase := .noted tags }, r)
    else ({ c with phase := .running none }, r)
  | _ => (c, r)

/-- A call that has noted the tags registers a waiter, and its command runs. -/
def enlist (c : Call α) (r : Registry) (now : Nat) : Call α × Registry :=
  match c.phase with
  | .noted tags =>
    let (w, r) := r.make c.context.token tags
    match r.register w with
    | .error e => c.fail r now (.alreadyRegistered e)
    | .ok r => ({ c with phase := .running (some w) }, r)
  | _ => (c, r)

/-- A waiting call looks around: an interruption comes before a completion, and that before the end
of the time. -/
def poll (c : Call α) (r : Registry) (now : Nat) : Call α × Registry :=
  match c.phase with
  | .waiting w value deadline =>
    if c.interrupted then c.answer r now .interrupted
    else if r.state w = .completed then c.answer r now (.completed value)
    else if deadline ≤ now then c.answer r now .unconfirmed
    else (c, r)
  | _ => (c, r)

/-- The longest wait of a call, in milliseconds. -/
def patience (c : Call α) (maxWait : Nat) : Nat := min (c.timeout * 1000) maxWait

/-- The command of a call has come to its end. A call without a waiter answers; so does one whose
command takes effect later. Any other call waits, and looks around at once. -/
def conclude (c : Call α) (r : Registry) (now maxWait : Nat)
    (result : Except DomainError (Executed α)) : Call α × Registry :=
  match c.phase, result with
  | .running _, .error e => c.fail r now (.ofDomain e)
  | .running none, .ok x => c.answer r now (.completed x.value)
  | .running (some w), .ok x =>
    match x.timing with
    | .deferred _ => c.answer r now (.completed x.value)
    | .immediate =>
      { c with phase := .waiting w x.value (now + c.patience maxWait) }.poll r now
  | _, _ => (c, r)

/-- Nobody waits for the answer of a call any more. -/
def drop (c : Call α) (r : Registry) (now : Nat) : Call α × Registry :=
  if c.phase.isEnded then (c, r) else c.leave r now .dropped

/-- A waiting call whose deadline lies before a moment looks around at its deadline. -/
def expire (c : Call α) (r : Registry) (moment : Nat) : Call α × Registry :=
  match c.phase with
  | .waiting _ _ deadline => if deadline < moment then c.poll r deadline else (c, r)
  | _ => (c, r)

end Call

end Billing.Completion
