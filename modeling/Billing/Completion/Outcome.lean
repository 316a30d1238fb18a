import Billing.Completion.Registry

/-!
# Outcomes of calls

How a call ends that may have waited for its billing to settle.
-/

namespace Billing.Completion

/-- How a call ends whose command was carried out. -/
inductive Outcome (α : Type) where
  /-- The command was carried out and, where that was asked for, its billing settled. -/
  | completed (value : α)
  /-- The wait was interrupted. -/
  | interrupted
  /-- The billing did not settle in time. -/
  | unconfirmed
  deriving DecidableEq

/-- Why a call fails. -/
inductive CallError where
  | domain (error : DomainError)
  | catalog (message : String)
  | missingAccount
  | alreadyRegistered (error : AlreadyRegistered)
  deriving DecidableEq

/-- The failure of a call whose command was refused. -/
def CallError.ofDomain : DomainError → CallError
  | .catalog m => .catalog m
  | e => .domain e

/-- The wording of a failure. -/
def CallError.message : CallError → String
  | .domain e => e.message
  | .catalog m => "catalog error: " ++ m
  | .missingAccount => "call completion requires an account"
  | .alreadyRegistered e => e.message

/-- What a call answers. -/
abbrev CallResult (α : Type) := Except CallError (Outcome α)

/-- The outcome with an answer made from its value; nothing is made where there is no value. -/
def Outcome.map {α β : Type} (respond : α → β) : Outcome α → Outcome β
  | .completed value => .completed (respond value)
  | .interrupted => .interrupted
  | .unconfirmed => .unconfirmed

end Billing.Completion
