/-!
# Domain errors

What a command can be refused for, by cause.
-/

namespace Billing

/-- A refusal of a command or a lookup. -/
inductive DomainError where
  | validation (message : String)
  | invariant (message : String)
  | invalidId (message : String)
  | notFound (what : String)
  | catalog (message : String)
  deriving DecidableEq

/-- The wording of a refusal. -/
def DomainError.message : DomainError → String
  | .validation m => "validation failed: " ++ m
  | .invariant m => "invariant violated: " ++ m
  | .invalidId m => "invalid identifier: " ++ m
  | .notFound m => "not found: " ++ m
  | .catalog m => "catalog lookup failed: " ++ m

end Billing
