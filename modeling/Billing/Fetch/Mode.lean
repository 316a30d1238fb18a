import Billing.Text.Ascii
import Billing.Text.Blank

/-!
# Fetch modes

How the fetches of one run are made: one after another, or all at once.
-/

namespace Billing.Fetch

/-- How the fetches of a run are made. -/
inductive Mode where
  | sequential
  | parallel
  deriving DecidableEq

namespace Mode

/-- The name of a mode. -/
def name : Mode → String
  | .sequential => "sequential"
  | .parallel => "parallel"

/-- Reads the name of a mode between blanks, in any case of its letters; a refusal says why. -/
def parse (s : String) : Except String Mode :=
  match Text.lowercase (Text.trim s) with
  | "sequential" => .ok .sequential
  | "parallel" => .ok .parallel
  | other => .error ("unknown fetch mode: " ++ other)

end Mode

end Billing.Fetch
