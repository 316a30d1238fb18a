import Billing.Service.System

/-!
# The schedule

The order in which a single worker takes the actions of the system: a command goes as far as it can
on its own; then all runs take the steps that are due, and what they announce is brought to the desk
at once; then calls look around; and then time passes to the next moment at which something is to be
done.
-/

namespace Billing.Service.System

open Completion (CallContext)

/-- Takes actions in order. -/
def steps (s : System) (as : List Action) : System := as.foldl step s

/-- Submits a command and takes it as far as it can go on its own; the answer is its number. -/
def submit (s : System) (x : CallContext) (completing : Bool) (timeout : Nat) (c : Command) :
    Nat × System :=
  let i := s.commands.length
  (i,
    s.steps
      [.submit x completing timeout c, .start i, .enlist i, .work i, .work i, .work i, .work i,
        .conclude i])

/-- A run takes all steps that are due; what it announces is brought to the desk. -/
def runOn (s : System) (n : Nat) : System :=
  Nat.repeat (fun s => s.steps [.stepRun n, .deliver]) Pipeline.Works.stepLimit s

/-- All runs take all steps that are due. -/
def runAll (s : System) : System := (List.range s.works.runs.length).foldl runOn s

/-- All calls look around. -/
def pollAll (s : System) : System :=
  s.steps ((List.range s.commands.length).map .poll)

/-- All that is due is done. -/
def settle (s : System) : System := s.runAll.pollAll

/-- All given calls have ended. -/
def haveEnded (s : System) (calls : List Nat) : Bool := calls.all s.desk.hasEnded

/-- The next moment at which a run, a call or the service has something to do. -/
def nextEvent? (s : System) : Option Nat :=
  (s.nextMoment?.toList ++ s.desk.nextDeadline?.toList).min?

/-- Time passes until all given calls have ended; at most so many moments are met. -/
def awaitWithin (calls : List Nat) : Nat → System → System
  | 0, s => s
  | n + 1, s =>
    if s.haveEnded calls then s
    else
      match s.nextEvent? with
      | none => s
      | some moment => awaitWithin calls n (s.step (.pass moment)).settle

/-- No more moments than this are met before all calls have ended: the steps of the runs, the
deadlines of the calls, and the end of the service. -/
def momentLimit (s : System) : Nat := 4 * s.works.runs.length + s.commands.length + 2

/-- Does what is due, and lets time pass until all given calls have ended. -/
def await (s : System) (calls : List Nat) : System :=
  let s := s.settle
  awaitWithin calls s.momentLimit s

/-- Time passes up to a moment; at most so many moments before it are met. -/
def advanceWithin (moment : Nat) : Nat → System → System
  | 0, s => s
  | n + 1, s =>
    if moment ≤ s.time then s
    else advanceWithin moment n (s.step (.pass moment)).settle

/-- Does what is due, and lets some time pass. -/
def advance (s : System) (duration : Nat) : System :=
  let moment := s.time + duration
  let s := s.settle
  advanceWithin moment s.momentLimit s

/-- The service is to shut down after some time. -/
def closeAfter (s : System) (delay : Nat) : System :=
  let moment := s.time + delay
  { s with closing := some (min moment (s.closing.getD moment)) }

/-- The end of a call, if it has ended. -/
def ending? (s : System) (i : Nat) : Option (Completion.Ending Subscription) :=
  match s.desk.calls[i]? with
  | some c =>
    match c.phase with
    | .ended e _ => some e
    | _ => none
  | none => none

end Billing.Service.System
