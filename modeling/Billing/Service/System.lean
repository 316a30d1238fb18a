import Billing.Completion.Desk
import Billing.Config.Settings
import Billing.Service.Command
import Billing.Service.Timeline

/-!
# The system

Commands, billing runs and waiting calls together. Every action is one step of one of them, so that
a list of actions is an interleaving. Each command has a call of the same number at the desk. What a
billing run announces is brought to the desk in the order of announcement, and time passes only when
nothing else is left to do.
-/

namespace Billing.Service

open Completion (CallContext Desk Phase)
open Pipeline (Works)

/-- The pause between the stages of a billing run, in milliseconds. -/
def stepDelay : Nat := 20

/-- A command that was submitted, and how far it has come. -/
structure Submitted where
  command : Command
  context : CallContext
  stage : Stage

/-- The state of the service. -/
structure System where
  catalog : Catalog
  fetchMode : Fetch.Mode
  fetchDeadline : Nat
  works : Works
  desk : Desk Subscription
  /-- All commands ever submitted; the call of each has its number. -/
  commands : List Submitted
  /-- What the audit log still lacks. -/
  notices : List Notice
  /-- The orders in which the tables are gone through now. -/
  scans : Scans
  /-- When the service shuts down, as far as that is known. -/
  closing : Option Nat

/-- One step of one part of the system. -/
inductive Action where
  /-- A command arrives with a call, which may be to wait for its completion. -/
  | submit (context : CallContext) (completing : Bool) (timeout : Nat) (command : Command)
  /-- The call of a command starts; it may read the tags of its account. -/
  | start (call : Nat)
  | enlist (call : Nat)
  /-- A command whose call lets it run goes through one stage. -/
  | work (call : Nat)
  /-- A command has come to its end, and its call goes on. -/
  | conclude (call : Nat)
  | poll (call : Nat)
  | drop (call : Nat)
  | stepRun (run : Nat)
  /-- The oldest event that was announced is brought to the desk. -/
  | deliver
  /-- An account is created; that it was is still to be written to the audit log. -/
  | createAccount (context : CallContext) (account : NewAccount)
  /-- The tags of an account are replaced, which is still to be written to the audit log. -/
  | replaceTags (context : CallContext) (account : AccountId) (tags : ControlTagSet)
  /-- A notice is written to the audit log. -/
  | audit (notice : Nat)
  /-- The tables come to be gone through in other orders. -/
  | rearrange (scans : Scans)
  | setClock (now : Instant)
  /-- A token is handed out to a request that came without one. -/
  | issueToken
  | shutDown
  /-- Time passes. -/
  | pass (moment : Nat)

namespace System

/-- The service with nothing in it. -/
def opened (settings : Config.Settings) (hash : CorrelationToken → UInt64) (now : Instant) :
    System where
  catalog := .standard
  fetchMode := settings.fetchMode
  fetchDeadline := settings.fetchDeadline
  works := .opened now stepDelay
  desk := .opened (.empty hash) (settings.maxCallTimeout * 1000)
  commands := []
  notices := []
  scans := .ascending
  closing := none

/-- The records. -/
def store (s : System) : Store := s.works.store

/-- The time in milliseconds. -/
def time (s : System) : Nat := s.works.time

/-- The service has been shut down. -/
def isClosed (s : System) : Bool := s.closing.any (· ≤ s.time)

/-- The tags that the call of a command finds for its account. -/
def tagsFor (s : System) (x : CallContext) : Except DomainError ControlTagSet :=
  match x.account with
  | some id => (s.store.account id).map (·.tags)
  | none => .ok .empty

/-- A call lets its command run. -/
def letsRun (s : System) (i : Nat) : Bool :=
  match s.desk.calls[i]? with
  | some c =>
    match c.phase with
    | .running _ => true
    | _ => false
  | none => false

/-- A token that no identifier has been before. -/
def freshToken (s : System) : CorrelationToken × System :=
  let books := s.works.books
  (.numbered books.fresh,
    { s with works := { s.works with books := { books with fresh := books.fresh + 1 } } })

/-- Something was tried on an account; if it was done, the audit log lacks it. -/
def noted (s : System) (x : CallContext) (action : String)
    (tried : Except DomainError Account × Works) : Except DomainError Account × System :=
  let notice? := tried.1.toOption.map fun a => Notice.mk x a.id action
  (tried.1, { s with works := tried.2, notices := s.notices ++ notice?.toList })

/-- Creates an account. -/
def createAccount (s : System) (x : CallContext) (n : NewAccount) :
    Except DomainError Account × System :=
  s.noted x "account.create" (Service.createAccount s.works n)

/-- Replaces the tags of an account. -/
def replaceTags (s : System) (x : CallContext) (id : AccountId) (tags : ControlTagSet) :
    Except DomainError Account × System :=
  s.noted x "account.tags.replace" (Service.replaceTags s.works id tags)

/-- Writes a notice to the audit log, if there is one of this number. -/
def audit (s : System) (i : Nat) : System :=
  { s with
    works :=
      match s.notices[i]? with
      | some n => Service.audit s.works n.context n.account n.action
      | none => s.works
    notices := s.notices.eraseIdx i }

/-- Creates an account and writes to the audit log, with nothing between. -/
def openAccount (s : System) (x : CallContext) (n : NewAccount) :
    Except DomainError Account × System :=
  let (answer, t) := s.createAccount x n
  (answer, t.audit s.notices.length)

/-- Replaces the tags of an account and writes to the audit log, with nothing between. -/
def retag (s : System) (x : CallContext) (id : AccountId) (tags : ControlTagSet) :
    Except DomainError Account × System :=
  let (answer, t) := s.replaceTags x id tags
  (answer, t.audit s.notices.length)

/-- A command that nobody calls for goes through all its stages. -/
def perform (s : System) (x : CallContext) (c : Command) : Stage × System :=
  let (stage, works) := c.run x s.catalog s.works
  (stage, { s with works })

/-- The timeline of an account as of now. -/
def timeline (s : System) (id : AccountId) : Fetch.Verdict Json DomainError :=
  Service.timeline s.fetchMode s.fetchDeadline s.isClosed s.store s.scans id

/-- Something happens at the desk. -/
def atDesk (s : System) (h : Completion.Happening Subscription) : System :=
  { s with desk := s.desk.step h }

/-! ## What can be done next -/

/-- A run has a step to take now. -/
def runIsDue (s : System) : Bool :=
  s.works.runs.any fun r => r.phase ≠ .ended ∧ r.due ≤ s.time

/-- A call has something to do other than to wait. -/
def callIsBusy (s : System) : Bool :=
  s.desk.calls.any fun c =>
    match c.phase with
    | .waiting .. => false
    | .ended .. => false
    | _ => true

/-- Something is left to do before time passes. -/
def isBusy (s : System) : Bool := !s.works.published.isEmpty || s.runIsDue || s.callIsBusy

/-- The next moment at which a run has a step to take or the service shuts down. -/
def nextMoment? (s : System) : Option Nat :=
  (s.works.nextDue?.toList ++ (s.closing.filter (s.time < ·)).toList).min?

/-- Interrupts all calls. -/
def interruptAll (s : System) : System :=
  { s with desk := s.desk.onAllCalls fun c r => ({ c with interrupted := true }, r) }

/-- Time passes to a moment, but not beyond the next at which something is to be done. A call that
waits looks around before, at its deadline, and again when time has passed. -/
def passTo (s : System) (moment : Nat) : System :=
  let moment := match s.nextMoment? with
    | some next => min moment next
    | none => moment
  let s := { s with works := s.works.passTo moment, desk := s.desk.advance moment }
  if s.isClosed then s.interruptAll else s

/-! ## Steps -/

/-- What an action makes of the system. -/
def step (s : System) : Action → System
  | .submit x completing timeout c =>
    let i := s.commands.length
    let s := { s with commands := s.commands ++ [Submitted.mk c x .reading] }
    let s := s.atDesk (.arrive x completing timeout)
    if s.isClosed then s.atDesk (.interrupt i) else s
  | .start i =>
    match s.commands[i]? with
    | some m => s.atDesk (.start i (s.tagsFor m.context))
    | none => s
  | .enlist i => s.atDesk (.enlist i)
  | .work i =>
    match s.commands[i]? with
    | some m =>
      if s.letsRun i then
        let (stage, w) := m.command.step m.context s.catalog s.works m.stage
        { s with works := w, commands := s.commands.set i { m with stage } }
      else s
    | none => s
  | .conclude i =>
    match s.commands[i]? with
    | some m =>
      match m.stage with
      | .done result _ => s.atDesk (.conclude i result)
      | .crashed => s.atDesk (.drop i)
      | _ => s
    | none => s
  | .poll i => s.atDesk (.poll i)
  | .drop i => s.atDesk (.drop i)
  | .stepRun n => { s with works := s.works.stepRun n }
  | .deliver =>
    match s.works.published with
    | [] => s
    | p :: rest =>
      { s with works := { s.works with published := rest } }.atDesk (.event p.token p.event)
  | .createAccount x n => (s.createAccount x n).2
  | .replaceTags x id tags => (s.replaceTags x id tags).2
  | .audit i => s.audit i
  | .rearrange scans => { s with scans }
  | .setClock t => { s with works := s.works.setClock t }
  | .issueToken => s.freshToken.2
  | .shutDown => { s with closing := some (min s.time (s.closing.getD s.time)) }.interruptAll
  | .pass moment => if s.isBusy then s else s.passTo moment

end System

end Billing.Service
