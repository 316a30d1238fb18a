import Billing.Completion.Desk

/-!
# Rehearsals

A rehearsal plays calls whose commands are written down in advance: when each call starts, which
events its command brings about and after which pauses, how the command ends, and when the call is
interrupted or dropped. All happens in the order of time; cues at one moment in the order in which
they were given.
-/

namespace Billing.Completion

/-- An event after a pause, under the token of the call unless another is given. -/
structure Pause where
  after : Nat
  token : Option CorrelationToken
  event : DomainEvent

/-- A call that is written down in advance. -/
structure Script (α : Type) where
  context : CallContext
  completing : Bool
  timeout : Nat
  start : Nat
  /-- When the call is interrupted, from its start on. -/
  interruptAfter : Option Nat
  /-- When the call is dropped, from its start on. -/
  dropAfter : Option Nat
  /-- What the command brings about before it ends. -/
  work : List Pause
  /-- What goes on after the command has ended. -/
  background : List Pause
  result : Except DomainError (Executed α)

/-- What is due at a moment. -/
inductive Cue where
  | start (call : Nat)
  /-- The first of these events is due in the command of a call. -/
  | work (call : Nat) (pauses : List Pause)
  /-- The first of these events is due, whatever has become of the call. -/
  | background (token : CorrelationToken) (pauses : List Pause)
  | interrupt (call : Nat)
  | drop (call : Nat)

/-- What was noted of a call. -/
structure Remark where
  /-- The token of the call was registered when its command began to run. -/
  registeredDuring : Option Bool
  /-- The token of the call was registered when the call had ended. -/
  registeredAfter : Option Bool
  deriving DecidableEq

/-- A rehearsal in progress. -/
structure Rehearsal (α : Type) where
  scripts : List (Script α)
  tagsOf : AccountId → Except DomainError ControlTagSet
  desk : Desk α
  agenda : List (Nat × Cue)
  lookUps : List AccountId
  deliveries : List (Nat × CorrelationToken × Delivery)
  remarks : List Remark

namespace Rehearsal

variable {α : Type}

/-! ## The agenda -/

/-- Takes the earliest entry out of an agenda, of several the first. -/
def takeEarliest : List (Nat × Cue) → Option ((Nat × Cue) × List (Nat × Cue))
  | [] => none
  | entry :: rest =>
    match takeEarliest rest with
    | none => some (entry, [])
    | some (other, others) =>
      if other.1 < entry.1 then some (other, entry :: others) else some (entry, rest)

/-- Puts a cue on the agenda. -/
def plan (p : Rehearsal α) (after : Nat) (cue : Cue) : Rehearsal α :=
  { p with agenda := p.agenda ++ [(p.desk.now + after, cue)] }

/-! ## Notes -/

/-- Changes what was noted of a call. -/
def remark (p : Rehearsal α) (i : Nat) (f : Remark → Remark) : Rehearsal α :=
  { p with remarks := p.remarks.modify i f }

/-- Whether the token of a call is registered. -/
def isRegistered (p : Rehearsal α) (i : Nat) : Bool :=
  match p.desk.calls[i]? with
  | some c => p.desk.registry.contains c.context.token
  | none => false

/-- Notes of all calls that have just ended whether their token is registered. -/
def noteEnds (p : Rehearsal α) : Rehearsal α :=
  (List.range p.desk.calls.length).foldl
    (fun p i =>
      if p.desk.hasEnded i then
        p.remark i fun m =>
          { m with registeredAfter := some (m.registeredAfter.getD (p.isRegistered i)) }
      else p)
    p

/-- Something happens at the desk. -/
def perform (p : Rehearsal α) (h : Happening α) : Rehearsal α :=
  { p with desk := p.desk.step h }.noteEnds

/-- Brings an event to the registry. -/
def deliver (p : Rehearsal α) (token : CorrelationToken) (event : DomainEvent) : Rehearsal α :=
  let (delivery, desk) := p.desk.dispatch token event
  { p with desk, deliveries := p.deliveries ++ [(p.desk.now, token, delivery)] }

/-! ## Playing -/

/-- Plans the next of the events that go on in the background. -/
def planBackground (p : Rehearsal α) (token : CorrelationToken) : List Pause → Rehearsal α
  | [] => p
  | pause :: pauses => p.plan pause.after (.background token (pause :: pauses))

/-- Lets the command of a call go on: events without a pause at once, later ones by a cue, and the
end of the command after the last. -/
def runWork (p : Rehearsal α) (i : Nat) (s : Script α) : List Pause → Rehearsal α
  | [] => (p.planBackground s.context.token s.background).perform (.conclude i s.result)
  | pause :: pauses =>
    if pause.after = 0 then
      (p.deliver (pause.token.getD s.context.token) pause.event).runWork i s pauses
    else p.plan pause.after (.work i (pause :: pauses))

/-- The command of a call is running. -/
def isRunning (p : Rehearsal α) (i : Nat) : Bool :=
  match p.desk.calls[i]? with
  | some c =>
    match c.phase with
    | .running _ => true
    | _ => false
  | none => false

/-- Notes whose tags a starting call looks up. -/
def noteLookUp (p : Rehearsal α) (i : Nat) : Rehearsal α :=
  match p.desk.calls[i]? with
  | some c => { p with lookUps := p.lookUps ++ c.lookUp?.toList }
  | none => p

/-- The tags that a call finds. -/
def tagsFor (p : Rehearsal α) (s : Script α) : Except DomainError ControlTagSet :=
  match s.context.account with
  | some account => p.tagsOf account
  | none => .ok .empty

/-- Starts a call and runs its command as far as it goes without a pause. -/
def startCall (p : Rehearsal α) (i : Nat) (s : Script α) : Rehearsal α :=
  let p := ((p.noteLookUp i).perform (.start i (p.tagsFor s))).perform (.enlist i)
  if p.isRunning i then
    (p.remark i fun m => { m with registeredDuring := some (p.isRegistered i) }).runWork i s s.work
  else p

/-- What is due is done. -/
def play (p : Rehearsal α) : Cue → Rehearsal α
  | .start i =>
    match p.scripts[i]? with
    | some s => p.startCall i s
    | none => p
  | .work i (pause :: pauses) =>
    match p.scripts[i]? with
    | some s =>
      if p.isRunning i then
        (p.deliver (pause.token.getD s.context.token) pause.event).runWork i s pauses
      else p
    | none => p
  | .work _ [] => p
  | .background token (pause :: pauses) =>
    (p.deliver (pause.token.getD token) pause.event).planBackground token pauses
  | .background _ [] => p
  | .interrupt i => p.perform (.interrupt i)
  | .drop i => (p.perform (.poll i)).perform (.drop i)

/-- Time moves on to a moment. -/
def advance (p : Rehearsal α) (moment : Nat) : Rehearsal α :=
  { p with desk := p.desk.advance moment }.noteEnds

/-- Plays at most so many cues, each at its time. -/
def playAll : Nat → Rehearsal α → Rehearsal α
  | 0, p => p
  | n + 1, p =>
    match takeEarliest p.agenda with
    | none => p
    | some ((time, cue), rest) => playAll n ({ p with agenda := rest }.advance time |>.play cue)

/-- Lets time pass until no call waits any more. -/
def finish (p : Rehearsal α) : Rehearsal α :=
  let deadlines := p.desk.calls.filterMap fun c => c.phase.deadline?
  p.advance (deadlines.foldl max p.desk.now + 1)

/-- The cues that a script gives before the rehearsal begins. -/
def cuesOf (i : Nat) (s : Script α) : List (Nat × Cue) :=
  let interrupt := s.interruptAfter.toList.map fun t => (s.start + t, Cue.interrupt i)
  let drop := s.dropAfter.toList.map fun t => (s.start + t, Cue.drop i)
  interrupt ++ (s.start, .start i) :: drop

/-- No more cues than these are given in the course of a rehearsal. -/
def cueCount (s : Script α) : Nat := 3 + s.work.length + s.background.length

/-- A rehearsal that has not begun, on a registry. -/
def prepared (registry : Registry) (maxWait : Nat)
    (tagsOf : AccountId → Except DomainError ControlTagSet) (scripts : List (Script α)) :
    Rehearsal α where
  scripts := scripts
  tagsOf := tagsOf
  desk := scripts.foldl (fun d s => d.step (.arrive s.context s.completing s.timeout))
    (.opened registry maxWait)
  agenda := scripts.zipIdx.flatMap fun (s, i) => cuesOf i s
  lookUps := []
  deliveries := []
  remarks := scripts.map fun _ => ⟨none, none⟩

/-- Plays all scripts to their end. -/
def run (registry : Registry) (maxWait : Nat)
    (tagsOf : AccountId → Except DomainError ControlTagSet) (scripts : List (Script α)) :
    Rehearsal α :=
  let cues := scripts.foldl (fun n s => n + cueCount s) 0
  (playAll cues (prepared registry maxWait tagsOf scripts)).finish

end Rehearsal

end Billing.Completion
