import Billing.Fetch.Parallel
import Billing.Fetch.Sequential

/-!
# Runs

A run refuses fetches of one name before any is started, and then makes them in its mode.
-/

namespace Billing.Fetch

variable {α ε : Type}

/-- The first name that stands twice. -/
def firstRepeated? : List String → List String → Option String
  | _, [] => none
  | seen, name :: names =>
    if name ∈ seen then some name else firstRepeated? (name :: seen) names

/-- The circumstances of run number `run` under a token. -/
def Circumstances.under (interrupt : Token) (run deadline : Nat)
    (interruptAt dropAt : Option Nat) : Circumstances :=
  ⟨deadline, interruptAt, dropAt, interrupt, interrupt.child run⟩

/-- A run that starts nothing. -/
def Report.refusal (c : Circumstances) (name : String) (cancelled : Cancelled) : Report α ε where
  verdict := .answered (.error (.duplicateName name))
  elapsed := 0
  started := []
  finished := []
  cancelled := c.cancelledAt 0 cancelled

/-- Makes the fetches of a run. -/
def aggregate (mode : Mode) (c : Circumstances) (fetches : List (Source α ε))
    (cancelled : Cancelled) : Report α ε :=
  match firstRepeated? [] (fetches.map (·.name)) with
  | some name => .refusal c name cancelled
  | none =>
    match mode with
    | .sequential => Sequential.run c fetches cancelled
    | .parallel => Parallel.run c fetches cancelled

end Billing.Fetch
