import Billing.Fetch.Basic

/-!
# Fetches one after another

The fetches are started in the order of submission, each when the one before has come to its end.
Each may take what is left of the time before the deadline. Nothing stands between a fetch and the
caller: if a fetch crashes, so does the run.
-/

namespace Billing.Fetch.Sequential

variable {α ε : Type}

/-- A run in progress. -/
structure State (α ε : Type) where
  elapsed : Nat
  values : Values α
  started : List (String × Token)
  finished : List String
  cancelled : Cancelled

/-- What a fetch makes of a run. -/
inductive Move (α ε : Type) where
  | goOn (state : State α ε)
  | stop (verdict : Verdict α ε) (state : State α ε)

namespace State

/-- The start of a run. -/
def initial (cancelled : Cancelled) : State α ε := ⟨0, [], [], [], cancelled⟩

/-- Time passes up to a moment. -/
def passTo (s : State α ε) (c : Circumstances) (time : Nat) : State α ε :=
  { s with elapsed := time, cancelled := c.cancelledAt time s.cancelled }

/-- The state in which a run ends: its own token is cancelled. -/
def closed (s : State α ε) (c : Circumstances) : State α ε :=
  { s with cancelled := s.cancelled.add c.scope }

/-- The run ends. -/
def close (s : State α ε) (c : Circumstances) (v : Verdict α ε) : Move α ε := .stop v (s.closed c)

/-- Time passes up to a moment at which the run acts, unless the run is dropped before. -/
def actAt (s : State α ε) (c : Circumstances) (time : Nat) (act : State α ε → Move α ε) :
    Move α ε :=
  if c.droppedBefore time then (s.passTo c (c.dropAt.getD 0)).close c .dropped
  else act (s.passTo c time)

/-- A fetch has come to its end. -/
def record (s : State α ε) (c : Circumstances) (f : Source α ε) : Move α ε :=
  let s := { s with finished := s.finished ++ [f.name] }
  match f.ending with
  | .value a => .goOn { s with values := s.values.insert f.name a }
  | .error e => s.close c (.answered (.error (.source f.name e)))
  | .crash => s.close c .crashed

/-- The time at which a fetch comes to its end that is started now. -/
def endTime? (s : State α ε) (f : Source α ε) : Option Nat :=
  match f.trigger with
  | .after delay => some (s.elapsed + delay)
  | .onCancel => none
  | .never => none

/-- The fetch does not come to its end in time. -/
def idle (s : State α ε) (c : Circumstances) (limit : Nat) (missing : List String) : Move α ε :=
  let expire := s.actAt c limit fun s => s.close c (.answered (.ok (.unavailable (inOrder missing))))
  match c.interruptAt with
  | some i =>
    if i ≤ limit then s.actAt c i fun s => s.close c (.answered (.error .interrupted)) else expire
  | none => expire

/-- Makes one fetch, with others behind it. -/
def fetch (s : State α ε) (c : Circumstances) (f : Source α ε) (rest : List (Source α ε)) :
    Move α ε :=
  let s := { s with started := s.started ++ [(f.name, c.scope)] }
  if c.interruptedBy s.elapsed then s.close c (.answered (.error .interrupted))
  else
    let limit := max s.elapsed c.deadline
    let missing := f.name :: rest.map (·.name)
    match s.endTime? f with
    | none => s.idle c limit missing
    | some time =>
      if time ≤ limit ∧ !c.interruptedBy time then s.actAt c time fun s => s.record c f
      else s.idle c limit missing

end State

/-- Makes fetches in order until the run ends. -/
def finish (c : Circumstances) : List (Source α ε) → State α ε → Verdict α ε × State α ε
  | [], s => (.answered (.ok (.complete s.values)), s.closed c)
  | f :: rest, s =>
    match s.fetch c f rest with
    | .goOn s => finish c rest s
    | .stop v s => (v, s)

/-- Makes the fetches of a run one after another. -/
def run (c : Circumstances) (fetches : List (Source α ε)) (cancelled : Cancelled) : Report α ε :=
  let (v, s) := finish c fetches (State.initial (c.cancelledAt 0 cancelled))
  { verdict := v
    elapsed := s.elapsed
    started := s.started
    finished := inOrder s.finished
    cancelled := s.cancelled }

end Billing.Fetch.Sequential
