import Billing.Proofs.Http.Demands
import Billing.Proofs.Http.Refusals
import Billing.Proofs.Service.Submission

/-!
# Effects of requests

A request is applied once, and then the audit log has one more entry, or it leaves all records as
they were. Which of the two it was is settled before anything else happens, and whenever the
request is answered, the status tells it.
-/

namespace Billing.Http

open Completion (CallContext)
open Service (Command Reading System)
open Service.System (Leads)

variable {q : Request} {s t u : System} {token : CorrelationToken} {o : Operation} {d : Demand}

/-! ## What is asked for -/

/-- What a request asks for. -/
def Request.asks? (q : Request) : Option Operation :=
  (Route.ofPath? q.target.path).bind fun r => r.asked? q.method

/-- Something may be changed. -/
def Operation.mutates : Operation → Bool
  | .createAccount | .replaceTags _ | .createSubscription | .changePlan _ | .cancel _ => true
  | _ => false

/-- A request asks for something that may change something. -/
def Request.Mutates (q : Request) : Prop := ∃ o, q.asks? = some o ∧ o.mutates = true

/-- The token under which a request is served, with the state once it has been handed out. -/
def Request.admitted? (q : Request) (s : System) : Option (CorrelationToken × System) :=
  match q.requestId? with
  | none => some s.freshToken
  | some raw =>
    match Id.parse .token raw with
    | .ok token => some (token, s)
    | .error _ => none

theorem not_mutates (h : q.method = .get ∨ q.method = .head) : ¬ q.Mutates := by
  rintro ⟨o, ho, hm⟩
  obtain ⟨r, _, hr⟩ := Option.bind_eq_some_iff.mp ho
  have hget : r.operation? .get = some o := by
    rcases h with h | h <;> simpa [Route.asked?, h] using hr
  cases r <;> simp only [Route.operation?, Option.some.injEq, reduceCtorEq] at hget <;>
    subst hget <;> cases hm

theorem start_of_admitted (h : q.admitted? s = some (token, u)) :
    Exchange.start q s = (⟨q.method, some token, (route ⟨token, none, q.note⟩ q u).1⟩,
      (route ⟨token, none, q.note⟩ q u).2) := by
  cases hid : q.requestId? with
  | none =>
      simp only [Request.admitted?, hid, Option.some.injEq] at h
      simp only [Exchange.start, hid, h]
  | some raw =>
      cases hparse : Id.parse .token raw with
      | ok token' =>
          simp only [Request.admitted?, hid, hparse, Option.some.injEq, Prod.mk.injEq] at h
          obtain ⟨rfl, rfl⟩ := h
          simp only [Exchange.start, hid, hparse]
      | error e => simp [Request.admitted?, hid, hparse] at h

theorem start_of_not_admitted (h : q.admitted? s = none) :
    Exchange.start q s = (⟨q.method, none, .answered (.bare 400)⟩, s) := by
  cases hid : q.requestId? with
  | none => simp [Request.admitted?, hid] at h
  | some raw =>
      cases hparse : Id.parse .token raw with
      | ok token' => simp [Request.admitted?, hid, hparse] at h
      | error e => simp only [Exchange.start, hid, hparse]

/-- A token that is handed out changes nothing else. -/
theorem admitted_leads (h : q.admitted? s = some (token, u)) :
    u.store = s.store ∧ u.works.runs = s.works.runs ∧ s.Leads u := by
  cases hid : q.requestId? with
  | none =>
      simp only [Request.admitted?, hid] at h
      cases h
      exact ⟨rfl, rfl, Leads.refl.step .issueToken⟩
  | some raw =>
      cases hparse : Id.parse .token raw with
      | ok token' =>
          simp only [Request.admitted?, hid, hparse] at h
          cases h
          exact ⟨rfl, rfl, .refl⟩
      | error e => simp [Request.admitted?, hid, hparse] at h

theorem route_of_asks (x : CallContext) (h : q.asks? = some o) : route x q s = perform x q s o := by
  obtain ⟨r, hr, ho⟩ := Option.bind_eq_some_iff.mp h
  simp only [route, hr, ho]

theorem route_of_not_asks (x : CallContext) (h : q.asks? = none) : (route x q s).2 = s := by
  unfold Request.asks? at h
  unfold route
  cases hr : Route.ofPath? q.target.path with
  | none => rfl
  | some r =>
      rw [hr] at h
      have ho : r.asked? q.method = none := h
      simp only [ho]

/-! ## What is applied -/

/-- A request is applied: what it asks for is done once, and the audit log has one more entry at
its end, which bears the token of the request and says what its headers say. -/
inductive Applied (q : Request) (token : CorrelationToken) (s t : System) : AuditEntry → Prop where
  | account {n : NewAccount} {a : Account} (asked : q.asks? = some .createAccount)
      (form : q.form newAccountForm = .ok n)
      (created : Account.create (.numbered s.works.books.fresh) n s.works.clock = .ok a)
      (store : t.store = (s.store.insertAccount a).recordAudit
        ⟨token, a.id, "account.create", q.note, s.works.clock⟩)
      (runs : t.works.runs = s.works.runs) :
      Applied q token s t ⟨token, a.id, "account.create", q.note, s.works.clock⟩
  | tags {raw : String} {id : AccountId} {tags : List ControlTag} {a : Account}
      (asked : q.asks? = some (.replaceTags raw)) (path : pathText raw >>= readAccount = .ok id)
      (form : q.form tagsForm = .ok tags) (found : s.store.account id = .ok a)
      (store : t.store = (s.store.insertAccount { a with tags := .ofList tags }).recordAudit
        ⟨token, id, "account.tags.replace", q.note, s.works.clock⟩)
      (runs : t.works.runs = s.works.runs) :
      Applied q token s t ⟨token, id, "account.tags.replace", q.note, s.works.clock⟩
  | command {o : Operation} {d : Demand} {r : Reading} {done : Executed Subscription}
      (asked : q.asks? = some o) (demand : q.demand? s o = some (.ok d))
      (effect : d.command.CarriedOut ⟨token, some d.account, q.note⟩ s.catalog s.works r done
        t.works)
      (account : r.account.id = d.account) :
      Applied q token s t ⟨token, d.account, d.command.action, q.note, s.works.clock⟩

theorem Applied.audit {e : AuditEntry} (h : Applied q token s t e) :
    t.store.audit = s.store.audit ++ [e] := by
  cases h with
  | account _ _ _ hstore =>
      rw [hstore]
      rfl
  | tags _ _ _ _ hstore =>
      rw [hstore]
      rfl
  | command _ _ heffect haccount =>
      have hstore : t.store = _ := heffect.store
      rw [hstore, ← haccount]
      rfl

theorem Applied.mutates {e : AuditEntry} (h : Applied q token s t e) : q.Mutates := by
  cases h with
  | account hasked => exact ⟨_, hasked, rfl⟩
  | tags hasked => exact ⟨_, hasked, rfl⟩
  | @command o _ _ _ hasked hdemand =>
      refine ⟨o, hasked, ?_⟩
      cases o <;> first | rfl | cases hdemand

/-- What a request did to the service: it was applied and entered in the audit log, or it did
nothing, and started no billing run. -/
inductive Effect (q : Request) (s t : System) : Option AuditEntry → Prop where
  | applied {token : CorrelationToken} {u : System} {e : AuditEntry}
      (admitted : q.admitted? s = some (token, u)) (applied : Applied q token u t e) :
      Effect q s t (some e)
  | nothing (store : t.store = s.store) (runs : t.works.runs = s.works.runs) : Effect q s t none

/-! ## What is answered -/

/-- Whatever comes later, every response has a property. -/
def Progress.Always (p : Progress) (t : System) (P : Response → Prop) : Prop :=
  ∀ later, t.Leads later → ∀ r, p.response? later = some r → P r

variable {P : Response → Prop} {p : Progress} {r : Response}

theorem always_answered (h : P r) : (Progress.answered r).Always t P := by
  intro later _ r' hr
  cases hr
  exact h

/-- What comes of a request that is served: what it did, and what is answered whenever it is. -/
def Served (q : Request) (token : CorrelationToken) (s : System) (o : Operation) (p : Progress)
    (t : System) : Prop :=
  (∃ e, Applied q token s t e ∧ p.Always t Response.Affirms) ∨
    t.store = s.store ∧ t.works.runs = s.works.runs ∧
      (o.mutates = true → p.Always t Response.Refuses)

theorem served_refusal (h : r.Refuses) : Served q token s o (.answered r) s :=
  Or.inr ⟨rfl, rfl, fun _ => always_answered h⟩

theorem served_unchanged (h : o.mutates = false) : Served q token s o p s :=
  Or.inr ⟨rfl, rfl, fun hm => by rw [h] at hm; cases hm⟩

theorem served_createAccount (hasks : q.asks? = some .createAccount) :
    Served q token s .createAccount (perform ⟨token, none, q.note⟩ q s .createAccount).1
      (perform ⟨token, none, q.note⟩ q s .createAccount).2 := by
  simp only [perform]
  cases hform : q.form newAccountForm with
  | error r => exact served_refusal (refusing_form q _ r hform)
  | ok n =>
      cases hcreated : Account.create (.numbered s.works.books.fresh) n s.works.clock with
      | error e =>
          simp only [System.openAccount, System.createAccount, Service.createAccount, hcreated,
            System.audit_noted_error]
          exact served_refusal (Response.refuses_ofError e)
      | ok a =>
          simp only [System.openAccount, System.createAccount, Service.createAccount, hcreated,
            System.audit_noted_ok]
          refine Or.inl ⟨_, .account hasks hform hcreated rfl rfl, always_answered ?_⟩
          exact Response.affirms_json (by decide) _

theorem served_replaceTags {raw : String} (hasks : q.asks? = some (.replaceTags raw)) :
    Served q token s (.replaceTags raw) (perform ⟨token, none, q.note⟩ q s (.replaceTags raw)).1
      (perform ⟨token, none, q.note⟩ q s (.replaceTags raw)).2 := by
  simp only [perform]
  cases hparts : (do
      let raw ← pathText raw
      let tags ← q.form tagsForm
      .ok (← readAccount raw, tags) : Except Response (AccountId × List ControlTag)) with
  | error r =>
      refine served_refusal (Refusing.bind (refusing_pathText raw) (fun raw => ?_) r hparts)
      refine (refusing_form q _).bind fun tags => ?_
      exact (refusing_readId _ _ _).bind fun id => .ok _
  | ok parts =>
      obtain ⟨id, tags⟩ := parts
      obtain ⟨text, htext, hparts⟩ := Command.bind_ok hparts
      obtain ⟨tags', htags, hparts⟩ := Command.bind_ok hparts
      obtain ⟨id', hid, hparts⟩ := Command.bind_ok hparts
      cases hparts
      cases hfound : s.store.account id with
      | error e =>
          have hworks : s.works.store.account id = .error e := hfound
          simp only [System.retag, System.replaceTags, Service.replaceTags, Store.setTags, hworks,
            System.audit_noted_error]
          exact served_refusal (Response.refuses_ofError e)
      | ok a =>
          have hworks : s.works.store.account id = .ok a := hfound
          obtain rfl : a.id = id := Store.id_of_account? (Command.store_account_ok hfound)
          simp only [System.retag, System.replaceTags, Service.replaceTags, Store.setTags, hworks,
            System.audit_noted_ok]
          have hpath : pathText raw >>= readAccount = .ok a.id := by
            rw [htext]
            exact hid
          refine Or.inl ⟨_, .tags hasks hpath htags hfound rfl rfl, always_answered ?_⟩
          exact Response.affirms_json (by decide) _

theorem demanded_of_demand {e : Except Response Demand} (h : q.demand? s o = some e)
    (he : e = .ok d) : Demanded q s d := by
  subst he
  cases o with
  | createSubscription => exact .creation (Option.some.inj h)
  | changePlan raw => exact .change (Option.some.inj h)
  | cancel raw => exact .cancellation (Option.some.inj h)
  | _ => cases h

section Calls

variable {n : Nat} {c : Command} {b : Completion.Call Subscription}

theorem always_refuses (hcall : t.desk.calls[n]? = some b) (hphase : b.phase.Refused) :
    (Progress.calling n c).Always t Response.Refuses := by
  intro later hlater r hr
  simp only [Progress.response?] at hr
  split at hr
  · rename_i result hending
    obtain ⟨e, rfl⟩ := hlater.ending_of_refused hcall hphase hending
    cases hr
    exact Response.refuses_ofCallError e
  · cases hr

theorem always_affirms (hcall : t.desk.calls[n]? = some b) (hphase : b.phase.Accepted) :
    (Progress.calling n c).Always t Response.Affirms := by
  intro later hlater r hr
  simp only [Progress.response?] at hr
  split at hr
  · rename_i result hending
    obtain ⟨o, rfl⟩ := hlater.ending_of_accepted hcall hphase hending
    cases hr
    exact Response.affirms_ofCall c o
  · cases hr

end Calls

/-- A demand that is submitted is refused, or its command is carried out; its call tells which. -/
theorem served_submit {e : Except Response Demand} (hs : s.Sound) (hasks : q.asks? = some o)
    (hdemand : q.demand? s o = some e) :
    Served q token s o (submit ⟨token, none, q.note⟩ s e).1
      (submit ⟨token, none, q.note⟩ s e).2 := by
  cases e with
  | error r => exact served_refusal (refusing_demand hdemand r rfl)
  | ok d =>
      have hsubmission := s.submit_submission hs.posted.length
        (CallContext.withAccount ⟨token, none, q.note⟩ d.account) d.completing d.timeout d.command
      simp only [submit]
      have hnumber : (s.submit (CallContext.withAccount ⟨token, none, q.note⟩ d.account)
          d.completing d.timeout d.command).1 = s.commands.length := rfl
      rw [hnumber]
      revert hsubmission
      generalize (s.submit (CallContext.withAccount ⟨token, none, q.note⟩ d.account)
        d.completing d.timeout d.command).2 = t
      intro hsubmission
      cases hsubmission with
      | refused hworks hcall hphase =>
          exact Or.inr ⟨congrArg (·.store) hworks, congrArg (·.runs) hworks,
            fun _ => always_refuses hcall hphase⟩
      | carriedOut heffect hcall hphase =>
          have haccount := (demanded_of_demand hdemand rfl).account
          have hread := (Command.read_ok heffect.read).1
          have hsame : some _ = some _ := hread.symm.trans haccount
          exact Or.inl ⟨_, .command hasks hdemand heffect (Option.some.inj hsame),
            always_affirms hcall hphase⟩

theorem served_perform (hs : s.Sound) (hasks : q.asks? = some o) :
    Served q token s o (perform ⟨token, none, q.note⟩ q s o).1
      (perform ⟨token, none, q.note⟩ q s o).2 := by
  cases o with
  | createAccount => exact served_createAccount hasks
  | replaceTags raw => exact served_replaceTags hasks
  | createSubscription => exact served_submit hs hasks rfl
  | changePlan raw => exact served_submit hs hasks rfl
  | cancel raw => exact served_submit hs hasks rfl
  | timeline raw =>
      simp only [perform]
      split
      · exact served_unchanged rfl
      · exact served_unchanged rfl
  | _ => exact served_unchanged rfl

/-! ## What becomes of a request -/

/-- A response tells whether there is an entry in the audit log. -/
structure Response.Tells (r : Response) (written? : Option AuditEntry) : Prop where
  affirms : r.Affirms ↔ written?.isSome
  refuses : r.Refuses ↔ written? = none

theorem Response.Affirms.tells (h : r.Affirms) (e : AuditEntry) : r.Tells (some e) :=
  ⟨iff_of_true h rfl, iff_of_false h.not_refuses nofun⟩

theorem Response.Refuses.tells (h : r.Refuses) : r.Tells none :=
  ⟨iff_of_false (fun ha => ha.not_refuses h) nofun, iff_of_true h rfl⟩

/-- What became of a request that met some state, as seen from a later one: what it did, and that
its reply, if there is one by then, tells whether it did anything. -/
structure Fate (later : System) (q : Request) (s : System) (written? : Option AuditEntry) :
    Prop where
  effect : Effect q s (Exchange.start q s).2 written?
  told : q.Mutates → ∀ reply, (Exchange.start q s).1.reply? later = some reply →
    reply.response.Tells written?

theorem Request.Mutates.response {e : Exchange} {later : System} {reply : Reply} (h : q.Mutates)
    (hm : e.method = q.method) (hreply : e.reply? later = some reply) :
    e.progress.response? later = some reply.response := by
  obtain ⟨r, hr, rfl⟩ := Option.map_eq_some_iff.mp hreply
  have hhead : e.method ≠ .head := by
    intro he
    exact not_mutates (Or.inr (hm.symm.trans he)) h
  rw [if_neg hhead]
  exact hr

theorem exists_fate (hs : s.Sound) (q : Request) :
    ∃ written?, ∀ later, (Exchange.start q s).2.Leads later → Fate later q s written? := by
  cases hadmitted : q.admitted? s with
  | none =>
      rw [start_of_not_admitted hadmitted]
      refine ⟨none, fun later _ => ⟨?_, fun hm reply hreply => ?_⟩⟩
      · rw [start_of_not_admitted hadmitted]
        exact .nothing rfl rfl
      · rw [start_of_not_admitted hadmitted] at hreply
        have hr : Response.bare 400 = reply.response :=
          Option.some.inj (hm.response rfl hreply)
        rw [← hr]
        exact Response.Refuses.tells ⟨by decide, by decide, by decide⟩
  | some admitted =>
      obtain ⟨token, u⟩ := admitted
      have hstart := start_of_admitted hadmitted
      obtain ⟨hstore, hruns, hleads⟩ := admitted_leads hadmitted
      cases hasks : q.asks? with
      | none =>
          refine ⟨none, fun later _ => ⟨?_, fun ⟨o, ho, _⟩ => ?_⟩⟩
          · rw [hstart, route_of_not_asks _ hasks]
            exact .nothing hstore hruns
          · rw [hasks] at ho
            cases ho
      | some o =>
          rw [route_of_asks _ hasks] at hstart
          have hserved : Served q token u o _ _ := served_perform (hleads.sound hs) hasks
          rw [hstart]
          rcases hserved with ⟨e, happlied, halways⟩ | ⟨hstore', hruns', halways⟩
          · refine ⟨some e, fun later hlater => ⟨?_, fun hm reply hreply => ?_⟩⟩
            · rw [hstart]
              exact .applied hadmitted happlied
            · rw [hstart] at hreply
              exact (halways later hlater _ (hm.response rfl hreply)).tells e
          · refine ⟨none, fun later hlater => ⟨?_, fun hm reply hreply => ?_⟩⟩
            · rw [hstart]
              exact .nothing (hstore'.trans hstore) (hruns'.trans hruns)
            · rw [hstart] at hreply
              obtain ⟨o', ho', hmutates⟩ := id hm
              rw [hasks] at ho'
              cases ho'
              exact (halways hmutates later hlater _ (hm.response rfl hreply)).tells

theorem Effect.of_not_mutates {written? : Option AuditEntry} (h : Effect q s t written?)
    (hm : ¬ q.Mutates) : written? = none := by
  cases h with
  | applied _ happlied => exact absurd happlied.mutates hm
  | nothing => rfl

theorem Effect.audit {written? : Option AuditEntry} (h : Effect q s t written?) :
    t.store.audit = s.store.audit ++ written?.toList := by
  cases h with
  | applied hadmitted happlied =>
      rw [happlied.audit, (admitted_leads hadmitted).1]
      rfl
  | nothing hstore =>
      rw [hstore]
      exact (List.append_nil _).symm

end Billing.Http
