import Billing.Fetch.Aggregator
import Billing.Store.Basic
import Billing.Wire.Records

/-!
# Timelines

Everything that is known of an account, fetched from five sources under one deadline.
-/

namespace Billing.Service

/-- What a timeline reads, by name. -/
def timelineReads (s : Store) (o : Scans) (id : AccountId) :
    List (String × Except DomainError Json) :=
  [("account", (s.account id).map Account.toJson),
    ("bundles", .ok (.array ((s.subscriptionsFor o id).map Subscription.toJson))),
    ("invoices", .ok (.array ((s.invoicesFor o id).map Invoice.toJson))),
    ("payments", .ok (.array ((s.paymentsFor o id).map Payment.toJson))),
    ("auditLogs", .ok (.array ((s.auditFor id).map AuditEntry.toJson)))]

/-- How a read ends. -/
def readEnding : Except DomainError Json → Fetch.Ending Json DomainError
  | .ok v => .value v
  | .error e => .error e

/-- The sources of a timeline, given how long the read of each takes. -/
def timelineSources (s : Store) (o : Scans) (id : AccountId) (delay : String → Nat) :
    List (Fetch.Source Json DomainError) :=
  (timelineReads s o id).map fun (name, answer) => ⟨name, .after (delay name), readEnding answer⟩

/-- The timeline of an account, read from sources that answer at once. The caller may have been
interrupted before. -/
def timeline (mode : Fetch.Mode) (deadline : Nat) (interrupted : Bool) (s : Store) (o : Scans)
    (id : AccountId) : Fetch.Verdict Json DomainError :=
  let c := Fetch.Circumstances.under (.root 0) 0 deadline (if interrupted then some 0 else none) none
  (Fetch.aggregate mode c (timelineSources s o id fun _ => 0) .none).verdict

end Billing.Service
