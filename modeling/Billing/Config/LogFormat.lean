import Billing.Text.Ascii
import Billing.Text.Blank

/-!
# Log formats

The form of log lines: for machines or for people.
-/

namespace Billing.Config

/-- The form of log lines. -/
inductive LogFormat where
  | json
  | pretty
  deriving DecidableEq

/-- A name that no log format has. -/
structure UnknownLogFormat where
  name : String
  deriving DecidableEq

/-- The wording of the refusal of a name. -/
def UnknownLogFormat.message (u : UnknownLogFormat) : String :=
  "unknown log format: " ++ u.name ++ " (expected `json` or `pretty`)"

/-- Reads the name of a format between blanks, in any case of its letters. -/
def LogFormat.parse (s : String) : Except UnknownLogFormat LogFormat :=
  match Text.lowercase (Text.trim s) with
  | "json" => .ok .json
  | "pretty" => .ok .pretty
  | "text" => .ok .pretty
  | other => .error ⟨other⟩

end Billing.Config
