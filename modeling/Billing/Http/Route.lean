import Billing.Http.Request
import Billing.Text.Pieces

/-!
# Routes

The places that a path may name, and what the methods do there. A slash at the end makes another
path.
-/

namespace Billing.Http

/-- A place that a path names; identifiers are as they were sent. -/
inductive Route where
  | health
  | accounts
  | account (id : String)
  | tags (account : String)
  | timeline (account : String)
  | subscriptions
  | subscription (id : String)
  deriving DecidableEq

/-- The place that a path names. What stands at its end must not be empty. -/
def Route.ofPath? (path : String) : Option Route :=
  match (Text.pieces '/' path.toList).map String.ofList with
  | ["", "health"] => some .health
  | ["", "accounts"] => some .accounts
  | ["", "accounts", id] => if id = "" then none else some (.account id)
  | ["", "accounts", id, "tags"] => some (.tags id)
  | ["", "accounts", id, "timeline"] => some (.timeline id)
  | ["", "subscriptions"] => some .subscriptions
  | ["", "subscriptions", id] => if id = "" then none else some (.subscription id)
  | _ => none

/-- What a request asks for; identifiers are as they were sent. -/
inductive Operation where
  | health
  | createAccount
  | showAccount (id : String)
  | replaceTags (account : String)
  | timeline (account : String)
  | createSubscription
  | showSubscription (id : String)
  | changePlan (subscription : String)
  | cancel (subscription : String)
  deriving DecidableEq

/-- What a method does at a place, if it does something there. -/
def Route.operation? : Route → Method → Option Operation
  | .health, .get => some .health
  | .accounts, .post => some .createAccount
  | .account id, .get => some (.showAccount id)
  | .tags id, .put => some (.replaceTags id)
  | .timeline id, .get => some (.timeline id)
  | .subscriptions, .post => some .createSubscription
  | .subscription id, .get => some (.showSubscription id)
  | .subscription id, .put => some (.changePlan id)
  | .subscription id, .delete => some (.cancel id)
  | _, _ => none

/-- What a request asks for at a place. A request for the head of an answer asks for what stands
there. -/
def Route.asked? (r : Route) (m : Method) : Option Operation :=
  r.operation? (if m = .head then .get else m)

end Billing.Http
