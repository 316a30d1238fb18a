import Billing.Completion.Outcome
import Billing.Fetch.Basic
import Billing.Http.Response

/-!
# Outcomes as responses

Every way in which a command, a waiting call or a run of fetches may end has its status and its
wording.
-/

namespace Billing.Http

/-- The response to what was refused. -/
def Response.ofError : DomainError → Response
  | .validation m => .failure 400 "validation_error" m
  | .invariant m => .failure 422 "invariant_violation" m
  | .invalidId m => .failure 400 "invalid_id" m
  | .notFound m => .failure 404 "not_found" ("not found: " ++ m)
  | .catalog m => .failure 400 "catalog_error" m

/-- The response to a command that answers at once. -/
def Response.ofResult {α : Type} (success : α → Response) : Except DomainError α → Response
  | .ok a => success a
  | .error e => .ofError e

/-- The response to a call that fails. -/
def Response.ofCallError : Completion.CallError → Response
  | .domain e => .ofError e
  | .catalog m => .failure 400 "catalog_error" m
  | .missingAccount => .failure 400 "missing_account" "call completion requires an account"
  | .alreadyRegistered e =>
    .failure 409 "duplicate_request" ("request " ++ e.token.text ++ " is already in flight")

/-- The response to a call. -/
def Response.ofCall {α : Type} (success : α → Response) : Completion.CallResult α → Response
  | .ok (.completed a) => success a
  | .ok .unconfirmed =>
    .failure 408 "completion_timeout"
      "the request was accepted but its billing effects were not confirmed in time"
  | .ok .interrupted => .failure 500 "interrupted" "interrupted while waiting for completion"
  | .error e => .ofCallError e

/-- The response to a run of fetches. -/
def Response.ofFetch {α : Type} (success : Fetch.Values α → Response) :
    Except (Fetch.Failure DomainError) (Fetch.Outcome α) → Response
  | .ok (.complete values) => success values
  | .ok (.unavailable missing) =>
    .json 503 (.object
      [("error", .string "fetch_deadline"),
        ("message", .string "not every source answered before the deadline"),
        ("missing", .array (missing.map Json.string))])
  | .error (.source _ e) => .ofError e
  | .error e => .failure 500 "fetch_failed" (e.message DomainError.message)

end Billing.Http
