import Billing.Pipeline.Run

/-!
# The billing works

All billing runs over the records, with the clock that stamps records and the time in milliseconds
that passes between the stages of a run. What the runs announce stands in order until it is taken.
-/

namespace Billing.Pipeline

/-- A run: what it bills, what it does next, and when that is due. -/
structure Run where
  order : Order
  phase : Phase
  due : Nat
  deriving DecidableEq

/-- An event as it is announced. -/
structure Publication where
  time : Nat
  token : CorrelationToken
  account : AccountId
  event : DomainEvent
  deriving DecidableEq

/-- All runs over the records. -/
structure Works where
  books : Books
  /-- The moment that the clock shows. -/
  clock : Instant
  time : Nat
  /-- The pause between the stages of a run. -/
  stepDelay : Nat
  /-- All runs ever started, by number. -/
  runs : List Run
  /-- What was announced and has not been taken, in order. -/
  published : List Publication
  deriving DecidableEq

namespace Works

/-- Works without runs over an empty store. -/
def opened (now : Instant) (stepDelay : Nat) : Works :=
  ⟨⟨.empty, 0⟩, now, 0, stepDelay, [], []⟩

/-- The records. -/
def store (w : Works) : Store := w.books.store

/-- Changes the records. -/
def withStore (w : Works) (s : Store) : Works := { w with books := { w.books with store := s } }

/-- Sets the clock. -/
def setClock (w : Works) (t : Instant) : Works := { w with clock := t }

/-- Starts a run; the answer is its number. -/
def start (w : Works) (o : Order) : Nat × Works :=
  (w.runs.length, { w with runs := w.runs ++ [⟨o, .queued, w.time⟩] })

/-- A run takes one step, if it has not ended and the step is due. -/
def stepRun (w : Works) (n : Nat) : Works :=
  match w.runs[n]? with
  | none => w
  | some r =>
    if r.phase = .ended ∨ w.time < r.due then w
    else
      let p := r.phase.step r.order w.books w.clock
      let r := { r with phase := p.phase, due := if p.pauses then w.time + w.stepDelay else w.time }
      let news := p.event.toList.map fun e => ⟨w.time, r.order.token, r.order.account, e⟩
      { w with
        books := p.books
        runs := w.runs.set n r
        published := w.published ++ news }

/-! ## Time -/

/-- No run takes more steps than this. -/
def stepLimit : Nat := 8

/-- A run takes all steps that are due. -/
def runOn (w : Works) (n : Nat) : Works := Nat.repeat (fun w => w.stepRun n) stepLimit w

/-- All runs take all steps that are due, in the order in which they were started. -/
def runAll (w : Works) : Works := (List.range w.runs.length).foldl runOn w

/-- When the next step of any run is due. -/
def nextDue? (w : Works) : Option Nat :=
  (w.runs.filterMap fun r => if r.phase = .ended then none else some r.due).min?

/-- Time passes to a later moment; nothing is done. -/
def passTo (w : Works) (time : Nat) : Works := { w with time := max w.time time }

/-- Time passes up to a moment, and all runs take their steps when they are due, at no more than so
many moments. -/
def advanceWithin (moment : Nat) : Nat → Works → Works
  | 0, w => w.passTo moment
  | n + 1, w =>
    match w.nextDue? with
    | none => w.passTo moment
    | some due =>
      if due ≤ moment then advanceWithin moment n (w.passTo due).runAll else w.passTo moment

/-- Time passes up to a moment, and all runs take their steps when they are due. A run pauses three
times at most. -/
def advanceTo (w : Works) (moment : Nat) : Works := advanceWithin moment (4 * w.runs.length) w

end Works

end Billing.Pipeline
