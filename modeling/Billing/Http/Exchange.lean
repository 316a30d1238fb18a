import Billing.Http.Form
import Billing.Http.Outcome
import Billing.Http.Query
import Billing.Http.Route
import Billing.Service.Schedule

/-!
# Exchanges

A request is served under a token, its own or a new one, which the reply carries back. What can be
answered at once is; a command goes as far as it can on its own, and its call may wait. Requests
that come together are taken in order as far as they go, and then time passes until all of them are
answered.
-/

namespace Billing.Http

open Completion (CallContext)
open Service (Command System)

/-! ## Parts of requests -/

/-- The text of an identifier in a path. -/
def pathText (raw : String) : Except Response String :=
  match Text.percentDecode? raw.toList with
  | some s => .ok s
  | none => .error (.remark 400 "the path is no UTF-8")

/-- Reads an identifier of what is named. -/
def readId (k : IdKind) (what raw : String) : Except Response (Id k) :=
  match Id.parse k raw with
  | .ok id => .ok id
  | .error _ => .error (.failure 400 "invalid_id" ("invalid " ++ what ++ " id"))

/-- Reads the identifier of an account. -/
def readAccount (raw : String) : Except Response AccountId := readId .account "account" raw

/-- Reads the identifier of a subscription. -/
def readSubscription (raw : String) : Except Response SubscriptionId :=
  readId .subscription "subscription" raw

/-! ## Commands -/

/-- The response to a command that was carried out. -/
def Response.ofCommand : Command → Subscription → Response
  | .create .., x => .json 201 x.answer
  | .changePlan .., x => .json 200 x.answer
  | .cancel .., _ => .bare 204

/-- A command that a request asks for, with its account, and how long its call may wait. -/
structure Demand where
  account : AccountId
  completing : Bool
  timeout : Nat
  command : Command

/-- What asks for a new subscription. -/
def demandCreation (q : Request) : Except Response Demand := do
  let o ← q.options
  let f ← q.form newSubscriptionForm
  let account ← readAccount f.account
  .ok ⟨account, o.completing, o.timeoutOr Options.defaultTimeout, .create account f.plan⟩

/-- The account of a subscription. -/
def accountOf (s : System) (id : SubscriptionId) : Except Response AccountId :=
  match s.store.subscription id with
  | .ok x => .ok x.account
  | .error e => .error (.ofError e)

/-- What asks for a change of the plan. -/
def demandChange (raw : String) (q : Request) (s : System) : Except Response Demand := do
  let raw ← pathText raw
  let o ← q.options
  let plan ← q.form planForm
  let id ← readSubscription raw
  let account ← accountOf s id
  .ok ⟨account, o.completing, o.timeoutOr Options.defaultTimeout, .changePlan id plan o.date⟩

/-- What asks for a cancellation. -/
def demandCancellation (raw : String) (q : Request) (s : System) : Except Response Demand := do
  let raw ← pathText raw
  let o ← q.options
  let id ← readSubscription raw
  let account ← accountOf s id
  .ok ⟨account, o.completing, o.timeoutOr Options.defaultCancelTimeout, .cancel id o.date⟩

/-! ## Progress -/

/-- How far the answer to a request has come. -/
inductive Progress where
  | answered (response : Response)
  /-- The sources of a timeline have still to be read. -/
  | reading (account : AccountId)
  /-- The answer is that of a call. -/
  | calling (call : Nat) (command : Command)
  /-- There will be no answer. -/
  | crashed

/-- What could be made of a request, or its refusal. -/
def Progress.ofExcept : Except Response Response → Progress
  | .ok r => .answered r
  | .error r => .answered r

/-- Submits what was asked for. -/
def submit (x : CallContext) (s : System) : Except Response Demand → Progress × System
  | .error r => (.answered r, s)
  | .ok d =>
    let (n, s) := s.submit (x.withAccount d.account) d.completing d.timeout d.command
    (.calling n d.command, s)

/-- The response to a timeline. -/
def timelineProgress (s : System) (id : AccountId) : Progress :=
  match s.timeline id with
  | .answered result => .answered (.ofFetch (fun values => .json 200 (.object values)) result)
  | _ => .crashed

/-- Starts with what was asked for. Sources that are read one after another are read at once. -/
def perform (x : CallContext) (q : Request) (s : System) : Operation → Progress × System
  | .health => (.answered (.bare 200), s)
  | .createAccount =>
    match q.form newAccountForm with
    | .error r => (.answered r, s)
    | .ok n =>
      let (result, s) := s.openAccount x n
      (.answered (.ofResult (fun a => .json 201 a.answer) result), s)
  | .showAccount raw =>
    (.ofExcept (do
      let id ← readAccount (← pathText raw)
      .ok (.ofResult (fun a => .json 200 a.answer) (s.store.account id))), s)
  | .replaceTags raw =>
    let parts : Except Response (AccountId × List ControlTag) := do
      let raw ← pathText raw
      let tags ← q.form tagsForm
      .ok (← readAccount raw, tags)
    match parts with
    | .error r => (.answered r, s)
    | .ok (id, tags) =>
      let (result, s) := s.retag x id (.ofList tags)
      (.answered (.ofResult (fun a => .json 200 a.answer) result), s)
  | .timeline raw =>
    match pathText raw >>= readAccount with
    | .error r => (.answered r, s)
    | .ok id => (if s.fetchMode = .sequential then timelineProgress s id else .reading id, s)
  | .createSubscription => submit x s (demandCreation q)
  | .showSubscription raw =>
    (.ofExcept (do
      let id ← readSubscription (← pathText raw)
      .ok (.ofResult (fun a => .json 200 a.answer) (s.store.subscription id))), s)
  | .changePlan raw => submit x s (demandChange raw q s)
  | .cancel raw => submit x s (demandCancellation raw q s)

/-- Starts with a request at the place that it names. -/
def route (x : CallContext) (q : Request) (s : System) : Progress × System :=
  match Route.ofPath? q.target.path with
  | none => (.answered (.bare 404), s)
  | some r =>
    match r.asked? q.method with
    | none => (.answered (.bare 405), s)
    | some o => perform x q s o

/-- The sources of a timeline are read. -/
def Progress.read (s : System) : Progress → Progress
  | .reading id => timelineProgress s id
  | p => p

/-- The call that an answer waits for. -/
def Progress.call? : Progress → Option Nat
  | .calling n _ => some n
  | _ => none

/-- The response, if there is one. -/
def Progress.response? (s : System) : Progress → Option Response
  | .answered r => some r
  | .calling n c =>
    match s.ending? n with
    | some (.answered result) => some (.ofCall (.ofCommand c) result)
    | _ => none
  | _ => none

/-! ## Exchanges -/

/-- What a client gets back. -/
structure Reply where
  requestId : Option CorrelationToken
  response : Response

/-- A request that is being served. -/
structure Exchange where
  method : Method
  /-- The token under which it is served; there is none if the request names what is no token. -/
  token : Option CorrelationToken
  progress : Progress

namespace Exchange

/-- Starts with a request. -/
def start (q : Request) (s : System) : Exchange × System :=
  let serve (token : CorrelationToken) (s : System) : Exchange × System :=
    let (p, s) := route ⟨token, none, q.note⟩ q s
    (⟨q.method, some token, p⟩, s)
  match q.requestId? with
  | none =>
    let (token, s) := s.freshToken
    serve token s
  | some raw =>
    match Id.parse .token raw with
    | .ok token => serve token s
    | .error _ => (⟨q.method, none, .answered (.bare 400)⟩, s)

/-- Starts with requests in order. -/
def startAll : List Request → System → List Exchange × System
  | [], s => ([], s)
  | q :: qs, s =>
    let (e, s) := start q s
    let (es, s) := startAll qs s
    (e :: es, s)

/-- The reply, if there is one; one to a request for the head of an answer has no body. -/
def reply? (s : System) (e : Exchange) : Option Reply :=
  (e.progress.response? s).map fun r =>
    ⟨e.token, if e.method = .head then r.withoutBody else r⟩

end Exchange

/-- Serves requests that come together. A request that is not answered has crashed. -/
def serve (qs : List Request) (s : System) : List (Option Reply) × System :=
  let (es, s) := Exchange.startAll qs s
  let es := es.map fun e => { e with progress := e.progress.read s }
  let s := s.await (es.filterMap (·.progress.call?))
  (es.map (Exchange.reply? s), s)

end Billing.Http
