import Billing.Proofs.Http.Sessions
import Billing.Proofs.Service.Lifecycle
import Billing.Proofs.Service.Patience

/-!
# Waiting makes no difference

Two requests for the same command may differ in whether their callers wait for the billing to
settle, and for how long. Whatever state they meet, they have the same effect, then and ever after,
and they are refused with the same reply.
-/

namespace Billing.Http

open Completion (Call CallContext)
open Service (Command Reading System)
open Service.System (Leads)

variable {α : Type} {q : Request} {query : String} {s t u : System} {token : CorrelationToken}
  {o o' : Options} {p : Operation} {d d' : Demand} {e e' : Except Response Demand}
  {ts : List Turn}

/-! ## What is asked for -/

/-- The request with another query. -/
def Request.withQuery (q : Request) (query : String) : Request :=
  { q with target := { q.target with query } }

/-- Two demands for the same command, which may differ in how long the call may wait; or the same
refusal. -/
inductive Wanted : Except Response Demand → Except Response Demand → Prop where
  | refused (r : Response) : Wanted (.error r) (.error r)
  | demanded {d d' : Demand} (account : d'.account = d.account) (command : d'.command = d.command) :
      Wanted (.ok d) (.ok d')

theorem Wanted.bind (x : Except Response α) {f g : α → Except Response Demand}
    (h : ∀ a, Wanted (f a) (g a)) : Wanted (x >>= f) (x >>= g) := by
  cases x with
  | error r => exact .refused r
  | ok a => exact h a

/-- Queries that name the same date make the same demands but for the wait. -/
theorem wanted_withQuery (ho : q.options = .ok o) (ho' : (q.withQuery query).options = .ok o')
    (hdate : o'.date = o.date) (hdemand : q.demand? s p = some e) :
    ∃ e', (q.withQuery query).demand? s p = some e' ∧ Wanted e e' := by
  cases p with
  | createSubscription =>
      obtain rfl := Option.some.inj hdemand
      refine ⟨_, rfl, ?_⟩
      unfold demandCreation
      rw [ho, ho']
      refine Wanted.bind (q.form newSubscriptionForm) fun form => ?_
      exact Wanted.bind (readAccount form.account) fun account => .demanded rfl rfl
  | changePlan raw =>
      obtain rfl := Option.some.inj hdemand
      refine ⟨_, rfl, ?_⟩
      unfold demandChange
      rw [ho, ho']
      refine Wanted.bind (pathText raw) fun text => ?_
      refine Wanted.bind (q.form planForm) fun plan => ?_
      refine Wanted.bind (readSubscription text) fun id => ?_
      exact Wanted.bind (accountOf s id) fun account => .demanded rfl (by rw [hdate])
  | cancel raw =>
      obtain rfl := Option.some.inj hdemand
      refine ⟨_, rfl, ?_⟩
      unfold demandCancellation
      rw [ho, ho']
      refine Wanted.bind (pathText raw) fun text => ?_
      refine Wanted.bind (readSubscription text) fun id => ?_
      exact Wanted.bind (accountOf s id) fun account => .demanded rfl (by rw [hdate])
  | _ => cases hdemand

theorem perform_of_demand (x : CallContext) (h : q.demand? s p = some e) :
    perform x q s p = submit x s e := by
  cases p with
  | createSubscription =>
      obtain rfl := Option.some.inj h
      rfl
  | changePlan raw =>
      obtain rfl := Option.some.inj h
      rfl
  | cancel raw =>
      obtain rfl := Option.some.inj h
      rfl
  | _ => cases h

theorem start_of_demand (hadmitted : q.admitted? s = some (token, u)) (hasks : q.asks? = some p)
    (hdemand : q.demand? u p = some e) :
    Exchange.start q s = (⟨q.method, some token, (submit ⟨token, none, q.note⟩ u e).1⟩,
      (submit ⟨token, none, q.note⟩ u e).2) := by
  rw [start_of_admitted hadmitted, route_of_asks _ hasks, perform_of_demand _ hdemand]

/-! ## What comes afterwards -/

theorem level_play (h : s.Level t) (hts : ∀ x ∈ ts, x.request? = none) :
    (play s ts).Level (play t ts) := by
  induction ts generalizing s t with
  | nil => exact h
  | cons x ts ih =>
      refine ih ?_ fun y hy => hts y (List.mem_cons_of_mem _ hy)
      have hx := hts x List.mem_cons_self
      cases x with
      | request q => cases hx
      | poll i => exact h.poll i
      | drop i => exact h.drop i
      | stepRun n => exact h.stepRun n
      | deliver => exact h.deliver
      | setClock now => exact h.setClock now
      | shutDown => exact h.shutDown
      | closeAfter delay => exact h.closeAfter delay
      | pass moment => exact h.pass moment

/-! ## Replies -/

theorem Response.ofCallError_ofDomain (e : DomainError) :
    Response.ofCallError (.ofDomain e) = .ofError e := by
  cases e <;> rfl

/-- Whatever comes later, the reply to an exchange is this, if there is one. -/
def Exchange.Settled (x : Exchange) (t : System) (reply? : Option Reply) : Prop :=
  ∀ later, t.Leads later → x.reply? later = reply?

/-- A request changes no records, and whatever comes later, this is the reply to it, if there is
one. -/
structure Request.Leaves (q : Request) (s : System) (reply? : Option Reply) : Prop where
  store : (Exchange.start q s).2.store = s.store
  settled : (Exchange.start q s).1.Settled (Exchange.start q s).2 reply?

section Requests

variable (hs : u.Sound) (hadmitted : q.admitted? s = some (token, u)) (hasks : q.asks? = some p)
include hadmitted hasks

/-- A command that cannot be read from its request leaves the records. -/
theorem leaves_undemanded {r : Response} (hdemand : q.demand? u p = some (.error r))
    (hm : q.method ≠ .head) : q.Leaves s (some ⟨some token, r⟩) := by
  have hstart := start_of_demand hadmitted hasks hdemand
  rw [submit] at hstart
  constructor
  · rw [hstart]
    exact (admitted_leads hadmitted).1
  · intro later _
    simp only [hstart, Exchange.reply?, Progress.response?, Option.map_some, if_neg hm]

variable (hdemand : q.demand? u p = some (.ok d)) (hfree : u.desk.registry.contains token = false)
include hs hdemand hfree

/-- However long its caller waits, a command that is demanded does what it does on its own. -/
theorem start_shows : ∃ m b r, Exchange.start q s =
      (⟨q.method, some token, .calling u.commands.length d.command⟩,
        u.adding (d.command.run ⟨token, some d.account, q.note⟩ u.catalog u.works).2 m b r) ∧
    System.Shows (d.command.run ⟨token, some d.account, q.note⟩ u.catalog u.works).1 b.phase := by
  have haccount := (demanded_of_demand hdemand rfl).account
  obtain ⟨m, b, r, hsubmit, hshows⟩ := System.submit_shows
    (x := CallContext.withAccount ⟨token, none, q.note⟩ d.account) hs.posted.length rfl haccount
    hfree d.completing d.timeout
  refine ⟨m, b, r, ?_, hshows⟩
  rw [start_of_demand hadmitted hasks hdemand, submit, hsubmit]
  rfl

theorem leaves_refused {x : DomainError} (hm : q.method ≠ .head)
    (hrun : d.command.run ⟨token, some d.account, q.note⟩ u.catalog u.works =
      (.done (.error x) none, u.works)) : q.Leaves s (some ⟨some token, .ofError x⟩) := by
  obtain ⟨m, b, r, hstart, hshows⟩ := start_shows hs hadmitted hasks hdemand hfree
  rw [hrun] at hstart hshows
  obtain ⟨time, hp⟩ := hshows
  constructor
  · rw [hstart]
    exact (admitted_leads hadmitted).1
  · rw [hstart]
    intro later hlater
    have hending := hlater.ending (System.call_adding hs.posted.length) hp
    simp only [Exchange.reply?, Progress.response?, hending, Option.map_some, if_neg hm,
      Response.ofCall, Response.ofCallError_ofDomain]

theorem leaves_crashed
    (hrun : d.command.run ⟨token, some d.account, q.note⟩ u.catalog u.works =
      (.crashed, u.works)) : q.Leaves s none := by
  obtain ⟨m, b, r, hstart, hshows⟩ := start_shows hs hadmitted hasks hdemand hfree
  rw [hrun] at hstart hshows
  obtain ⟨time, hp⟩ := hshows
  constructor
  · rw [hstart]
    exact (admitted_leads hadmitted).1
  · rw [hstart]
    intro later hlater
    have hending := hlater.ending (System.call_adding hs.posted.length) hp
    simp only [Exchange.reply?, Progress.response?, hending, Option.map_none]

end Requests

/-! ## Two requests -/

/-- Two requests for a command, each of which meets the same state: both are refused and nothing
changes, now and ever after with the same reply; or both crash and are never answered; or what the
one has done is that the command was carried out. -/
inductive Concord (q q' : Request) (s : System) : Prop where
  | refused (reply : Reply) (refuses : reply.response.Refuses) (leaves : q.Leaves s (some reply))
      (leaves' : q'.Leaves s (some reply)) : Concord q q' s
  | crashed (leaves : q.Leaves s none) (leaves' : q'.Leaves s none) : Concord q q' s
  | carriedOut {token : CorrelationToken} {u : System} {d : Demand} {r : Reading}
      {done : Executed Subscription} (admitted : q.admitted? s = some (token, u))
      (effect : d.command.CarriedOut ⟨token, some d.account, q.note⟩ u.catalog u.works r done
        (Exchange.start q s).2.works) : Concord q q' s

/-- Whatever state they meet, two requests for the same command that differ only in how long their
callers wait leave the same works: the same records, the same audit log and the same runs, right
after they have been met and after whatever comes later, as long as nothing else is asked for. Where
one is refused, so is the other, with the same reply, and nothing has changed. -/
theorem waiting_alike (settings : Config.Settings) (hash : CorrelationToken → UInt64)
    (now : Instant) (reached : (System.opened settings hash now).Leads s)
    (options : q.options = .ok o) (options' : (q.withQuery query).options = .ok o')
    (date : o'.date = o.date) (admitted : q.admitted? s = some (token, u))
    (asks : q.asks? = some p) (demand : q.demand? u p = some e)
    (free : u.desk.registry.contains token = false) :
    (∀ ts : List Turn, (∀ t ∈ ts, t.request? = none) →
      (play (Exchange.start (q.withQuery query) s).2 ts).works =
        (play (Exchange.start q s).2 ts).works) ∧
      Concord q (q.withQuery query) s := by
  have hsound : u.Sound :=
    (admitted_leads admitted).2.2.sound (reached.sound (.opened settings hash now))
  have hmutates : q.Mutates := by
    refine ⟨p, asks, ?_⟩
    cases p <;> first | rfl | cases demand
  have hm : q.method ≠ .head := fun hm => not_mutates (Or.inr hm) hmutates
  obtain ⟨e', demand', hwanted⟩ := wanted_withQuery options options' date demand
  cases hwanted with
  | refused r =>
      have hleaves' := leaves_undemanded (q := q.withQuery query) admitted asks demand' hm
      refine ⟨fun ts hts => ?_, .refused _ (refusing_demand demand r rfl)
        (leaves_undemanded admitted asks demand hm) hleaves'⟩
      rw [start_of_demand admitted asks demand,
        start_of_demand (q := q.withQuery query) admitted asks demand']
      rfl
  | @demanded d d' haccount hcommand =>
      -- Each of the two is compared with the command as it runs on its own.
      obtain ⟨l, b, r, hstart, hshows⟩ := start_shows hsound admitted asks demand free
      obtain ⟨l', b', r', hstart', hshows'⟩ :=
        start_shows (q := q.withQuery query) hsound admitted asks demand' free
      rw [haccount, hcommand] at hstart' hshows'
      refine ⟨fun ts hts => ?_, ?_⟩
      · rw [hstart, hstart']
        exact (level_play (System.level_adding hshows.not_busy hshows'.not_busy) hts).works
      · have hwent := d.command.run_went ⟨token, some d.account, q.note⟩ u.catalog u.works
        cases hrun : d.command.run ⟨token, some d.account, q.note⟩ u.catalog u.works with
        | mk stage w =>
            have hrun' : d'.command.run ⟨token, some d'.account, (q.withQuery query).note⟩
                u.catalog u.works = (stage, w) := by
              rw [haccount, hcommand]
              exact hrun
            rw [hrun] at hwent
            cases hwent with
            | @refused x =>
                exact .refused _ (Response.refuses_ofError x)
                  (leaves_refused hsound admitted asks demand free hm hrun)
                  (leaves_refused (q := q.withQuery query) hsound admitted asks demand' free hm
                    hrun')
            | crashed =>
                exact .crashed (leaves_crashed hsound admitted asks demand free hrun)
                  (leaves_crashed (q := q.withQuery query) hsound admitted asks demand' free hrun')
            | carriedOut heffect =>
                have hworks : (Exchange.start q s).2.works = w := by
                  rw [hstart, hrun]
                  rfl
                exact .carriedOut admitted (hworks ▸ heffect)

/-! ### A cancellation -/

/-- The subscription that was ordered is cancelled. -/
def cancelling : Request :=
  ⟨.delete, ⟨"/subscriptions/019c0000-0000-7000-8000-000000000001", ""⟩,
    [("x-request-id", "019c0000-0000-7000-8000-000000000009")], ""⟩

/-- The caller waits for two seconds at most. -/
def cancellingPatiently : Request := cancelling.withQuery "callCompletion=true&callTimeoutSec=2"

theorem cancelling_alike :
    (∀ ts : List Turn, (∀ t ∈ ts, t.request? = none) →
      (play (Exchange.start cancellingPatiently System.ordered).2 ts).works =
        (play (Exchange.start cancelling System.ordered).2 ts).works) ∧
      Concord cancelling cancellingPatiently System.ordered := by
  have hoptions : cancelling.options = .ok ⟨false, none, none⟩ := rfl
  have hoptions' : cancellingPatiently.options = .ok ⟨true, some 2, none⟩ := rfl
  have hadmitted : cancelling.admitted? System.ordered = some (.numbered 9, System.ordered) := rfl
  obtain ⟨d, hdemand⟩ : ∃ d, cancelling.demand? System.ordered
      (.cancel "019c0000-0000-7000-8000-000000000001") = some (.ok d) := ⟨_, rfl⟩
  exact waiting_alike .default (fun _ => 0) .epoch System.ordered_reached
    hoptions hoptions' rfl hadmitted rfl hdemand rfl

end Billing.Http
