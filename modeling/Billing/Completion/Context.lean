import Billing.Identifier

/-!
# Call contexts

What comes with a call besides the command: the token of all that it causes, who asks and why, and
the account that it is about.
-/

namespace Billing.Completion

/-- Who asks for a command and why, as far as they said. -/
structure AuditNote where
  createdBy : Option String
  reason : Option String
  comment : Option String
  deriving DecidableEq

/-- A note that says nothing. -/
def AuditNote.none : AuditNote := ⟨.none, .none, .none⟩

/-- What comes with a call besides the command. -/
structure CallContext where
  token : CorrelationToken
  account : Option AccountId
  note : AuditNote
  deriving DecidableEq

/-- The context of a call that is about an account. -/
def CallContext.withAccount (c : CallContext) (account : AccountId) : CallContext :=
  { c with account := some account }

end Billing.Completion
