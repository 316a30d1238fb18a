import Billing.Amount
import Billing.DomainError

/-!
# The catalog

The monthly prices of plans.
-/

namespace Billing

/-- Prices of plans; of two prices of one plan the later counts. -/
structure Catalog where
  plans : List (String × Amount)
  deriving DecidableEq

namespace Catalog

/-- The price of a plan, if the catalog knows it. -/
def price? (c : Catalog) (plan : String) : Option Amount :=
  (c.plans.reverse.find? fun p => p.1 = plan).map (·.2)

/-- The price of a plan. -/
def price (c : Catalog) (plan : String) : Except DomainError Amount :=
  match c.price? plan with
  | some a => .ok a
  | none => .error (.catalog ("unknown plan: " ++ plan))

/-- The plans on offer. -/
def standard : Catalog where
  plans :=
    [("trial-monthly", .zero), ("basic-monthly", ⟨1000, by decide⟩),
      ("standard-monthly", ⟨2500, by decide⟩), ("pro-monthly", ⟨5000, by decide⟩)]

end Catalog

end Billing
