import Billing.Fetch.Mode
import Billing.Fetch.Token

/-!
# Fetches

A fetch is a read from one named source. A run makes several fetches under one deadline and ends
with all their values, with the names of those that are missing, or with a failure. Time is counted
in milliseconds from the start of the run.
-/

namespace Billing.Fetch

/-- When a fetch comes to its end. -/
inductive Trigger where
  | after (delay : Nat)
  /-- When its token is cancelled. -/
  | onCancel
  | never
  deriving DecidableEq

/-- How a fetch comes to its end. -/
inductive Ending (α ε : Type) where
  | value (a : α)
  | error (e : ε)
  | crash
  deriving DecidableEq

/-- A source: its name, and when and how a read from it comes to its end. -/
structure Source (α ε : Type) where
  name : String
  trigger : Trigger
  ending : Ending α ε
  deriving DecidableEq

/-- The values of a run by name, in the order of the names. -/
abbrev Values (α : Type) := List (String × α)

/-- Sets the value of a name. -/
def Values.insert {α : Type} (name : String) (a : α) : Values α → Values α
  | [] => [(name, a)]
  | (n, b) :: rest =>
    if name < n then (name, a) :: (n, b) :: rest
    else if name = n then (name, a) :: rest
    else (n, b) :: Values.insert name a rest

/-- The values of names; the last value of a name counts. -/
def Values.ofList {α : Type} (pairs : List (String × α)) : Values α :=
  pairs.foldl (fun values p => values.insert p.1 p.2) []

/-- How a run ends that does not fail. -/
inductive Outcome (α : Type) where
  | complete (values : Values α)
  /-- The deadline came first; these names have no value, in order. -/
  | unavailable (missing : List String)
  deriving DecidableEq

/-- Why a run fails. -/
inductive Failure (ε : Type) where
  | source (name : String) (error : ε)
  | crashed (name : String)
  | interrupted
  | duplicateName (name : String)
  deriving DecidableEq

/-- The values of a run that has them all. -/
def Outcome.values? {α : Type} : Outcome α → Option (Values α)
  | .complete values => some values
  | .unavailable _ => none

/-- The wording of a failure, given that of an error. -/
def Failure.message {ε : Type} (wording : ε → String) : Failure ε → String
  | .source name e => "fetch `" ++ name ++ "` failed: " ++ wording e
  | .crashed name => "fetch `" ++ name ++ "` crashed"
  | .interrupted => "fetch interrupted"
  | .duplicateName name => "duplicate fetch name: " ++ name

/-- What becomes of a run. -/
inductive Verdict (α ε : Type) where
  | answered (result : Except (Failure ε) (Outcome α))
  /-- The crash of a fetch reached the caller. -/
  | crashed
  /-- The caller did not wait for the end. -/
  | dropped

/-- Names in order. -/
def inOrder (names : List String) : List String := names.mergeSort fun a b => !decide (b < a)

/-! ## Circumstances -/

/-- What surrounds a run: its deadline, when its caller interrupts or drops it, the token of the
caller, and the token below it that is the run's own. -/
structure Circumstances where
  deadline : Nat
  interruptAt : Option Nat
  dropAt : Option Nat
  interrupt : Token
  scope : Token

namespace Circumstances

/-- The interruption has come by some time. -/
def interruptedBy (c : Circumstances) (time : Nat) : Bool := c.interruptAt.any (· ≤ time)

/-- The run was dropped before some time. -/
def droppedBefore (c : Circumstances) (time : Nat) : Bool := c.dropAt.any (· < time)

/-- What is cancelled when time has come: the interruption is the caller's doing. -/
def cancelledAt (c : Circumstances) (time : Nat) (cancelled : Cancelled) : Cancelled :=
  if c.interruptedBy time then cancelled.add c.interrupt else cancelled

end Circumstances

/-- The end of a run. -/
structure Report (α ε : Type) where
  verdict : Verdict α ε
  elapsed : Nat
  /-- The fetches that were started, in order, each with the token that it was handed. -/
  started : List (String × Token)
  /-- The fetches that came to their end, in order of their names. -/
  finished : List String
  cancelled : Cancelled

end Billing.Fetch
