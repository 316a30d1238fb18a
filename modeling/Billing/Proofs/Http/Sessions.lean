import Mathlib.Data.List.Forall2
import Billing.Proofs.Http.Effects

/-!
# Sessions

Requests come one after another while runs take their steps, calls look around and time passes. The
audit log is the list of what was applied, in the order of the requests, and nothing that comes
between them adds to it or takes from it.
-/

namespace Billing.Http

open Completion (CallContext)
open Service (System)
open Service.System (Leads)

/-! ## Turns -/

/-- Something that comes to the service. -/
inductive Turn where
  | request (q : Request)
  | poll (call : Nat)
  /-- Nobody waits for an answer any more. -/
  | drop (call : Nat)
  | stepRun (run : Nat)
  | deliver
  | setClock (now : Instant)
  | shutDown
  | closeAfter (delay : Nat)
  | pass (moment : Nat)

/-- What a turn makes of the service. -/
def Turn.take (s : System) : Turn → System
  | .request q => (Exchange.start q s).2
  | .poll i => s.step (.poll i)
  | .drop i => s.step (.drop i)
  | .stepRun n => s.step (.stepRun n)
  | .deliver => s.step .deliver
  | .setClock now => s.step (.setClock now)
  | .shutDown => s.step .shutDown
  | .closeAfter delay => s.closeAfter delay
  | .pass moment => s.step (.pass moment)

/-- The request that a turn is. -/
def Turn.request? : Turn → Option Request
  | .request q => some q
  | _ => none

/-- What turns in order make of the service. -/
def play (s : System) (ts : List Turn) : System := ts.foldl Turn.take s

/-- The requests among turns in order, each with the state that it meets. -/
def met (s : System) : List Turn → List (Request × System)
  | [] => []
  | t :: ts => (t.request?.map fun q => (q, s)).toList ++ met (t.take s) ts

variable {s t' u : System} {q : Request} {o : Operation} {t : Turn} {ts rest : List Turn}

theorem play_append : play s (ts ++ rest) = play (play s ts) rest := List.foldl_append

theorem met_append : met s (ts ++ rest) = met s ts ++ met (play s ts) rest := by
  induction ts generalizing s with
  | nil => rfl
  | cons t ts ih =>
      show _ ++ met (t.take s) (ts ++ rest) = _ ++ met (t.take s) ts ++ _
      rw [ih, List.append_assoc]
      rfl

theorem met_of_no_request (h : ∀ t ∈ ts, t.request? = none) : met s ts = [] := by
  induction ts generalizing s with
  | nil => rfl
  | cons t ts ih =>
      unfold met
      rw [h t List.mem_cons_self, ih fun t ht => h t (List.mem_cons_of_mem _ ht)]
      rfl

theorem leads_submit (x : CallContext) (s : System) (d : Except Response Demand) :
    s.Leads (submit x s d).2 := by
  cases d with
  | error r => exact .refl
  | ok d =>
      simp only [submit]
      exact System.leads_submit s _ _ _ _

theorem leads_perform (x : CallContext) (q : Request) (s : System) (o : Operation) :
    s.Leads (perform x q s o).2 := by
  cases o with
  | createAccount =>
      simp only [perform]
      split
      · exact .refl
      · exact (Leads.refl.step (.createAccount x _)).step (.audit s.notices.length)
  | replaceTags raw =>
      simp only [perform]
      split
      · exact .refl
      · exact (Leads.refl.step (.replaceTags x _ _)).step (.audit s.notices.length)
  | createSubscription => exact leads_submit x s _
  | changePlan raw => exact leads_submit x s _
  | cancel raw => exact leads_submit x s _
  | timeline raw =>
      simp only [perform]
      split <;> exact .refl
  | _ => exact .refl

theorem leads_start (q : Request) (s : System) : s.Leads (Exchange.start q s).2 := by
  cases hadmitted : q.admitted? s with
  | none =>
      rw [start_of_not_admitted hadmitted]
      exact .refl
  | some admitted =>
      obtain ⟨token, u⟩ := admitted
      rw [start_of_admitted hadmitted]
      refine (admitted_leads hadmitted).2.2.trans ?_
      cases hasks : q.asks? with
      | none =>
          rw [route_of_not_asks _ hasks]
          exact .refl
      | some o =>
          rw [route_of_asks _ hasks]
          exact leads_perform _ q u o

theorem leads_take (t : Turn) (s : System) : s.Leads (t.take s) := by
  cases t with
  | request q => exact leads_start q s
  | poll i => exact Leads.refl.step (.poll i)
  | drop i => exact Leads.refl.step (.drop i)
  | stepRun n => exact Leads.refl.step (.stepRun n)
  | deliver => exact Leads.refl.step .deliver
  | setClock now => exact Leads.refl.step (.setClock now)
  | shutDown => exact Leads.refl.step .shutDown
  | closeAfter delay => exact Leads.refl.closeAfter delay
  | pass moment => exact Leads.refl.step (.pass moment)

theorem leads_play (s : System) (ts : List Turn) : s.Leads (play s ts) := by
  induction ts generalizing s with
  | nil => exact .refl
  | cons t ts ih => exact (leads_take t s).trans (ih _)

/-- Whatever comes between requests neither adds to the audit log nor takes from it. -/
theorem audit_take (h : t.request? = none) (s : System) :
    (t.take s).store.audit = s.store.audit := by
  cases t with
  | request q => cases h
  | stepRun n => exact (s.works.stepRun_beside n).audit
  | deliver =>
      simp only [Turn.take, System.step]
      split <;> rfl
  | pass moment =>
      simp only [Turn.take, System.step]
      split
      · rfl
      · rw [System.store_passTo]
  | _ => rfl

/-! ## The audit log of a session -/

/-- The audit log is what it was, with an entry for every request that was applied, in order. -/
theorem session_audit (hs : s.Sound) (ts : List Turn) :
    ∃ entries, List.Forall₂ (fun m e => Fate (play s ts) m.1 m.2 e) (met s ts) entries ∧
      (play s ts).store.audit = s.store.audit ++ entries.reduceOption := by
  induction ts generalizing s with
  | nil => exact ⟨[], .nil, (List.append_nil _).symm⟩
  | cons t ts ih =>
      obtain ⟨entries, hfates, haudit⟩ := ih ((leads_take t s).sound hs)
      cases hrequest : t.request? with
      | none =>
          refine ⟨entries, ?_, ?_⟩
          · rw [met, hrequest]
            exact hfates
          · rw [← audit_take hrequest s]
            exact haudit
      | some q =>
          obtain ⟨written?, hfate⟩ := exists_fate hs q
          have ht : t = .request q := by
            cases t <;> simp_all [Turn.request?]
          subst ht
          -- The rest of the session is what comes later for this request.
          have hhere := hfate (play s (.request q :: ts)) (leads_play _ ts)
          refine ⟨written? :: entries, .cons hhere hfates, ?_⟩
          refine haudit.trans ?_
          rw [Turn.take, hhere.effect.audit, List.append_assoc]
          cases written? <;> rfl

theorem auditFor_of_audit {es : List AuditEntry} (h : t'.store.audit = s.store.audit ++ es)
    (account : AccountId) : t'.store.auditFor account =
      s.store.auditFor account ++ es.filter (·.account = account) := by
  unfold Store.auditFor
  rw [h, List.filter_append]

/-! ## Requests that come together -/

/-- One state leads to another by turns none of which is a request. -/
def Quiet (s t : System) : Prop :=
  ∃ ts : List Turn, (∀ t ∈ ts, t.request? = none) ∧ t = play s ts

theorem Quiet.refl (s : System) : Quiet s s := ⟨[], by simp, rfl⟩

theorem Quiet.turn (h : t.request? = none) (s : System) : Quiet s (t.take s) :=
  ⟨[t], by simpa using h, rfl⟩

theorem Quiet.trans (h : Quiet s t') (k : Quiet t' u) : Quiet s u := by
  obtain ⟨ts, hts, rfl⟩ := h
  obtain ⟨rest, hrest, rfl⟩ := k
  refine ⟨ts ++ rest, ?_, play_append.symm⟩
  intro t ht
  rcases List.mem_append.mp ht with ht | ht
  · exact hts t ht
  · exact hrest t ht

theorem Quiet.foldl {α : Type} {f : System → α → System} (hf : ∀ s a, Quiet s (f s a))
    (s : System) (as : List α) : Quiet s (as.foldl f s) := by
  induction as generalizing s with
  | nil => exact .refl s
  | cons a as ih => exact (hf s a).trans (ih (f s a))

theorem quiet_runOn (s : System) (n : Nat) : Quiet s (s.runOn n) := by
  unfold System.runOn
  induction Pipeline.Works.stepLimit with
  | zero => exact .refl s
  | succ k ih =>
      refine ih.trans (Quiet.trans (.turn (t := .stepRun n) rfl _) ?_)
      exact .turn (t := .deliver) rfl _

theorem quiet_settle (s : System) : Quiet s s.settle := by
  have hrun : Quiet s s.runAll := Quiet.foldl quiet_runOn s _
  refine hrun.trans ?_
  unfold System.settle System.pollAll System.steps
  rw [List.foldl_map]
  exact Quiet.foldl (fun s i => .turn (t := .poll i) rfl s) _ _

theorem quiet_awaitWithin (calls : List Nat) (n : Nat) (s : System) :
    Quiet s (System.awaitWithin calls n s) := by
  induction n generalizing s with
  | zero => exact .refl s
  | succ n ih =>
      unfold System.awaitWithin
      split
      · exact .refl s
      · split
        · exact .refl s
        · rename_i moment _
          exact (Quiet.turn (t := .pass moment) rfl s).trans ((quiet_settle _).trans (ih _))

theorem quiet_await (s : System) (calls : List Nat) : Quiet s (s.await calls) :=
  (quiet_settle s).trans (quiet_awaitWithin calls _ _)

theorem startAll_met (qs : List Request) (s : System) :
    Exchange.startAll qs s = ((met s (qs.map .request)).map fun m => (Exchange.start m.1 m.2).1,
      play s (qs.map .request)) := by
  induction qs generalizing s with
  | nil => rfl
  | cons q qs ih =>
      simp only [Exchange.startAll, ih]
      rfl

theorem read_submit (x : CallContext) (d : Except Response Demand) :
    (submit x s d).1.read u = (submit x s d).1 := by
  cases d <;> rfl

theorem read_perform (x : CallContext) (h : o.mutates = true) :
    (perform x q s o).1.read u = (perform x q s o).1 := by
  cases o with
  | createAccount =>
      simp only [perform]
      split <;> rfl
  | replaceTags raw =>
      simp only [perform]
      split <;> rfl
  | createSubscription => exact read_submit x _
  | changePlan raw => exact read_submit x _
  | cancel raw => exact read_submit x _
  | _ => cases h

/-- No source has still to be read for a request that asks for a change. -/
theorem Request.Mutates.read (h : q.Mutates) :
    (Exchange.start q s).1.progress.read u = (Exchange.start q s).1.progress := by
  obtain ⟨o, hasks, hmutates⟩ := h
  cases hadmitted : q.admitted? s with
  | none =>
      rw [start_of_not_admitted hadmitted]
      rfl
  | some admitted =>
      obtain ⟨token, v⟩ := admitted
      rw [start_of_admitted hadmitted, route_of_asks _ hasks]
      exact read_perform _ hmutates

/-- Requests that come together are met in order, and then something happens that is none. Every
request that asks for a change is answered as its exchange tells in the end. -/
theorem serve_play (qs : List Request) (s : System) :
    ∃ rest : List Turn, (∀ t ∈ rest, t.request? = none) ∧
      (serve qs s).2 = play s (qs.map .request ++ rest) ∧
      List.Forall₂ (fun m reply => m.1.Mutates →
          reply = (Exchange.start m.1 m.2).1.reply? (serve qs s).2)
        (met s (qs.map .request ++ rest)) (serve qs s).1 := by
  generalize hlast : (serve qs s).2 = last
  unfold serve at hlast ⊢
  rw [startAll_met] at hlast ⊢
  simp only at hlast ⊢
  obtain ⟨rest, hrest, hplay⟩ := quiet_await (play s (qs.map .request)) _
  refine ⟨rest, hrest, ?_, ?_⟩
  · rw [play_append, ← hlast]
    exact hplay
  · rw [met_append, met_of_no_request hrest, List.append_nil, hlast, List.map_map, List.map_map,
      List.forall₂_map_right_iff, List.forall₂_same]
    intro m _ hm
    simp only [Function.comp_apply, hm.read]

/-- In whatever state a request meets the service, it was applied once, with one entry at the end
of the audit log, or it left all records as they were and started no billing run; and whenever it is
answered, the answer tells which. Nothing else writes to the audit log: over any session, it holds
what was applied, in order, and requests that are served together are part of such a session. -/
theorem effects_told (settings : Config.Settings) (hash : CorrelationToken → UInt64)
    (now : Instant) :
    (∀ s, (System.opened settings hash now).Leads s → ∀ q : Request, ∃ written?,
      (∀ later, (Exchange.start q s).2.Leads later → Fate later q s written?) ∧
      (∀ account, (Exchange.start q s).2.store.auditFor account =
        s.store.auditFor account ++ written?.toList.filter (·.account = account)) ∧
      (q.method = .get ∨ q.method = .head ∨ ¬ q.Mutates → written? = none)) ∧
    (∀ ts : List Turn, ∃ entries,
      List.Forall₂ (fun m e => Fate (play (System.opened settings hash now) ts) m.1 m.2 e)
        (met (System.opened settings hash now) ts) entries ∧
      ∀ account, (play (System.opened settings hash now) ts).store.auditFor account =
        entries.reduceOption.filter (·.account = account)) ∧
    ∀ (qs : List Request) (s : System), ∃ rest : List Turn, (∀ t ∈ rest, t.request? = none) ∧
      (serve qs s).2 = play s (qs.map .request ++ rest) ∧
      List.Forall₂ (fun m reply => m.1.Mutates →
          reply = (Exchange.start m.1 m.2).1.reply? (serve qs s).2)
        (met s (qs.map .request ++ rest)) (serve qs s).1 := by
  have hopened : (System.opened settings hash now).Sound := .opened settings hash now
  refine ⟨fun s hs q => ?_, fun ts => ?_, serve_play⟩
  · obtain ⟨written?, hfate⟩ := exists_fate (hs.sound hopened) q
    have heffect := (hfate _ .refl).effect
    refine ⟨written?, hfate, auditFor_of_audit heffect.audit, fun hq => ?_⟩
    apply heffect.of_not_mutates
    rcases hq with hget | hhead | hq
    · exact not_mutates (Or.inl hget)
    · exact not_mutates (Or.inr hhead)
    · exact hq
  · obtain ⟨entries, hfates, haudit⟩ := session_audit hopened ts
    exact ⟨entries, hfates, auditFor_of_audit haudit⟩

end Billing.Http
