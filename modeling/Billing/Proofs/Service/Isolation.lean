import Billing.Proofs.Service.Provenance
import Billing.Service.Timeline

/-!
# Accounts apart

Every action is about one account at most: a command is about the account of its subscription, and
a run about the account that it bills. What is kept of other accounts stays as it is.
-/

namespace Billing

theorem Account.id_of_create {id : AccountId} {n : NewAccount} {now : Instant} {a : Account}
    (h : Account.create id n now = .ok a) : a.id = id := by
  unfold create at h
  split at h
  · cases h
  · split at h
    · cases h
      rfl
    · cases h

/-! ## What is kept of an account -/

/-- Two stores hold the same of an account. -/
structure Store.Spares (id : AccountId) (s t : Store) : Prop where
  account : t.account? id = s.account? id
  subscriptions : (t.subscriptions.filter fun x => x.account = id) =
    s.subscriptions.filter fun x => x.account = id
  invoices : (t.invoices.filter fun i => i.account = id) =
    s.invoices.filter fun i => i.account = id
  payments : (t.payments.filter fun p => p.account = id) =
    s.payments.filter fun p => p.account = id
  audit : (t.audit.filter fun e => e.account = id) = s.audit.filter fun e => e.account = id

namespace Store

variable {s t u : Store} {id : AccountId}

theorem Spares.refl (s : Store) : s.Spares id s := ⟨rfl, rfl, rfl, rfl, rfl⟩

theorem Spares.trans (h : Spares id s t) (k : Spares id t u) : Spares id s u where
  account := k.account.trans h.account
  subscriptions := k.subscriptions.trans h.subscriptions
  invoices := k.invoices.trans h.invoices
  payments := k.payments.trans h.payments
  audit := k.audit.trans h.audit

theorem spares_insertAccount {a : Account} (h : a.id ≠ id) : Spares id s (s.insertAccount a) where
  account := by rw [account?_insertAccount, if_neg h]
  subscriptions := rfl
  invoices := rfl
  payments := rfl
  audit := rfl

theorem spares_insertSubscription {x : Subscription} (h : x.account ≠ id)
    (hold : ∀ y, s.subscription? x.id = some y → y.account ≠ id) :
    Spares id s (s.insertSubscription x) where
  account := rfl
  subscriptions := Table.filter_put (decide_eq_false h) fun y hy => decide_eq_false (hold y hy)
  invoices := rfl
  payments := rfl
  audit := rfl

theorem spares_insertInvoice {i : Invoice} (h : i.account ≠ id)
    (hold : ∀ j, s.invoice? i.id = some j → j.account ≠ id) :
    Spares id s (s.insertInvoice i) where
  account := rfl
  subscriptions := rfl
  invoices := Table.filter_put (decide_eq_false h) fun j hj => decide_eq_false (hold j hj)
  payments := rfl
  audit := rfl

theorem spares_insertPayment {p : Payment} (h : p.account ≠ id)
    (hold : ∀ q, s.payment? p.id = some q → q.account ≠ id) :
    Spares id s (s.insertPayment p) where
  account := rfl
  subscriptions := rfl
  invoices := rfl
  payments := Table.filter_put (decide_eq_false h) fun q hq => decide_eq_false (hold q hq)
  audit := rfl

theorem spares_recordAudit {e : AuditEntry} (h : e.account ≠ id) :
    Spares id s (s.recordAudit e) where
  account := rfl
  subscriptions := rfl
  invoices := rfl
  payments := rfl
  audit := by simp [recordAudit, h]

/-- What is listed for the account is the same but for ties. -/
theorem Spares.tied (h : Spares id s t) (o o' : Scans) :
    Tied (·.createdAt) (s.subscriptionsFor o id) (t.subscriptionsFor o' id) ∧
      Tied (·.createdAt) (s.invoicesFor o id) (t.invoicesFor o' id) ∧
        Tied (·.createdAt) (s.paymentsFor o id) (t.paymentsFor o' id) :=
  ⟨tied_sorted _ _ h.subscriptions, tied_sorted _ _ h.invoices, tied_sorted _ _ h.payments⟩

end Store

/-! ## One step -/

namespace Pipeline

open Store (Spares)

variable {b : Books} {o : Order} {p : Phase} {i : Invoice} {id : AccountId}

/-- An invoice that a run has in hand after a step it had before, or it is one of its order. -/
theorem Phase.account_of_invoice? {now : Instant} (h : (p.step o b now).phase.invoice? = some i) :
    p.invoice? = some i ∨ i.account = o.account := by
  cases p with
  | queued =>
      simp only [step] at h
      split at h <;> cases h
  | transitioning t =>
      simp only [step] at h
      split at h <;> cases h
  | drafting t =>
      simp only [step] at h
      split at h <;> cases h
  | invoicing t =>
      simp only [step] at h
      split at h
      · cases h
      · cases h
        exact Or.inr rfl
  | announcing t j =>
      simp only [step] at h
      split at h
      · cases h
      · cases h
        exact Or.inl rfl
  | paying t j =>
      simp only [step] at h
      unfold Books.pay at h
      split at h <;> split at h <;> cases h
  | _ => cases h

section Run

variable (hn : b.Numbered) (hf : b.fresh < Id.supply) (ho : o.account ≠ id)
include hn hf ho

theorem spares_pay (i : Invoice) (status : PaymentStatus) (message : Option String)
    (now : Instant) (next : Phase) (hi : i.account = o.account)
    (hheld : b.store.invoice? i.id = some i) :
    Spares id b.store
      (b.pay (o.payment (.numbered b.fresh) i status message now) next).books.store := by
  have hpayment : ∀ {s : Store}, s.payments = b.store.payments →
      Spares id s (s.insertPayment (o.payment (.numbered b.fresh) i status message now)) := by
    intro s hs
    refine Store.spares_insertPayment ho fun q hq => ?_
    have hnone : s.payment? (.numbered b.fresh) = none := by
      rw [Store.payment?, hs]
      exact Id.find?_next hn.payments hf
    cases hnone.symm.trans hq
  have hinvoice : ∀ balance, Spares id b.store (b.store.insertInvoice { i with balance }) := by
    intro balance
    have hne : i.account ≠ id := hi ▸ ho
    refine Store.spares_insertInvoice hne fun j hj => ?_
    rw [show b.store.invoice? i.id = some j from hj] at hheld
    cases hheld
    exact hne
  have hfound : b.store.invoice? (o.payment (.numbered b.fresh) i status message now).invoice =
      some i := hheld
  unfold Books.pay Store.recordPayment
  rw [hfound]
  cases status with
  | failed => exact hpayment rfl
  | success =>
      simp only [Order.payment]
      cases i.balance.sub? i.balance with
      | none => exact .refl _
      | some balance => exact (hinvoice balance).trans (hpayment rfl)

/-- A step of a run leaves what is kept of other accounts. -/
theorem Phase.step_spares (now : Instant)
    (hheld : ∀ i, p.invoice? = some i → i.account = o.account ∧ b.store.invoice? i.id = some i) :
    Spares id b.store (p.step o b now).books.store := by
  have hinvoice : ∀ status, Spares id b.store
      (b.store.insertInvoice (o.invoice (.numbered b.fresh) status now)) := by
    intro status
    refine Store.spares_insertInvoice ho fun j hj => ?_
    cases (Id.find?_next hn.invoices hf).symm.trans hj
  cases p with
  | drafting t =>
      simp only [step]
      split
      · exact hinvoice _
      · exact .refl _
  | invoicing t =>
      simp only [step]
      split
      · exact .refl _
      · exact hinvoice _
  | paying t i =>
      obtain ⟨hi, hstored⟩ := hheld i rfl
      simp only [step]
      split
      · exact spares_pay hn hf ho i _ _ _ _ hi hstored
      · exact spares_pay hn hf ho i _ _ _ _ hi hstored
  | queued | transitioning | announcing =>
      simp only [step]
      split <;> exact .refl _
  | _ => exact .refl _

end Run

end Pipeline

namespace Service

open Store (Spares)
open Pipeline (Works Run)

namespace Command

variable {c : Command} {x : Completion.CallContext} {catalog : Catalog} {w : Works} {stage : Stage}
  {r : Reading} {z : Subscription} {id : AccountId}

/-- What a command makes belongs to the account that it is about. -/
theorem Makes.account (h : c.Makes r w z) (hc : c.account? w.store = some r.account.id) :
    z.account = r.account.id := by
  cases h with
  | created => rfl
  | changed hfound hchange =>
      rw [account?, hfound] at hc
      rw [((careful_changedPlan _ _ _).done hchange).2.2]
      exact Option.some.inj hc
  | cancelled hfound hchange =>
      rw [account?, hfound] at hc
      rw [((careful_cancelled _ _).done hchange).2.2]
      exact Option.some.inj hc

/-- A stage of a command leaves what is kept of other accounts. -/
theorem step_spares (hn : w.books.Numbered) (hf : w.books.fresh < Id.supply)
    (hread : ∀ r, stage.reading? = some r → c.account? w.store = some r.account.id)
    (hid : c.account? w.store ≠ some id) :
    Spares id w.store (c.step x catalog w stage).2.store := by
  have hne : ∀ r, stage.reading? = some r → r.account.id ≠ id := by
    rintro r hr rfl
    exact hid (hread r hr)
  cases stage with
  | updating r =>
      simp only [step]
      cases hupdate : c.update r w with
      | mk answer v =>
          cases answer with
          | error e =>
              rw [update_error hupdate]
              exact .refl _
          | ok z =>
              obtain ⟨hmakes, hstore, _⟩ := update_ok hupdate
              have haccount : z.account ≠ id := by
                rw [hmakes.account (hread r rfl)]
                exact hne r rfl
              show Spares id w.store v.store
              rw [hstore]
              refine Store.spares_insertSubscription haccount fun y hy => ?_
              rcases hmakes.becomes with hfresh | ⟨y', hy', hbecomes⟩
              · rw [hfresh] at hy
                cases (Id.find?_next hn.subscriptions hf).symm.trans hy
              · rw [hy] at hy'
                cases hy'
                rw [← hbecomes.account]
                exact haccount
  | auditing r z => exact Store.spares_recordAudit (hne r rfl)
  | reading =>
      simp only [step]
      split
      · exact .refl _
      · split <;> exact .refl _
  | launching r z =>
      simp only [step]
      split <;> exact .refl _
  | _ => exact .refl _

end Command

/-! ## One action -/

/-- The account that an action is about. -/
def Action.account? (s : System) : Action → Option AccountId
  | .work i => s.commands[i]?.bind fun m => m.command.account? s.store
  | .stepRun n => s.works.runs[n]?.map fun r => r.order.account
  | .createAccount .. => some (.numbered s.works.books.fresh)
  | .replaceTags _ id _ => some id
  | .audit i => s.notices[i]?.map (·.account)
  | _ => none

namespace System

variable {s t : System} {a : Action} {as : List Action} {w : Works} {cs : List Submitted}
  {d : Completion.Desk Subscription} {n : Nat} {id : AccountId}

/-- A run was there before an action, and may have taken a step in it, or it has just begun. -/
theorem Effect.run_origin (h : s.Effect a w cs d) {r : Run} (hr : w.runs[n]? = some r) :
    (∃ r', s.works.runs[n]? = some r' ∧ (r = r' ∨ r = r'.next s.works)) ∨ r.phase = .queued := by
  cases h with
  | worked _ _ hadv =>
      rcases hadv.runs with ⟨hruns, _⟩ | ⟨_, _, _, _, hruns⟩
      · rw [hruns] at hr
        exact Or.inl ⟨r, hr, Or.inl rfl⟩
      · rw [hruns] at hr
        rcases getElem?_concat_eq_some_iff.mp hr with hr | ⟨_, rfl⟩
        · exact Or.inl ⟨r, hr, Or.inl rfl⟩
        · exact Or.inr rfl
  | @stepped k =>
      cases hk : s.works.mover? k with
      | none =>
          rw [Works.stepRun_of_mover?_none hk] at hr
          exact Or.inl ⟨r, hr, Or.inl rfl⟩
      | some r' =>
          obtain ⟨hr', _, _⟩ := Works.mover?_eq_some_iff.mp hk
          rw [Works.stepRun_of_mover? hk] at hr
          rcases (getElem?_set_eq_some_iff hr').mp hr with ⟨rfl, rfl⟩ | ⟨_, hr⟩
          · exact Or.inl ⟨r', hr', Or.inr rfl⟩
          · exact Or.inl ⟨r, hr, Or.inl rfl⟩
  | _ => exact Or.inl ⟨r, hr, Or.inl rfl⟩

/-- A command has read the account that it is about, and a run has an invoice of its order in
hand. -/
structure Attributed (s : System) : Prop where
  read : ∀ {j : Nat} {m : Submitted} {r : Reading}, s.commands[j]? = some m →
    m.stage.reading? = some r → m.command.account? s.store = some r.account.id
  held : ∀ {n : Nat} {r : Run} {i : Invoice}, s.works.runs[n]? = some r →
    r.phase.invoice? = some i → i.account = r.order.account

theorem Attributed.opened (settings : Config.Settings) (hash : CorrelationToken → UInt64)
    (now : Instant) : (System.opened settings hash now).Attributed where
  read h := nomatch h
  held h := nomatch h

theorem Attributed.step (h : s.Attributed) (hs : s.Stocked) (hf : s.Supplied) (a : Action) :
    (s.step a).Attributed where
  read {j m r} hm hr := by
    have he := s.step_effect a
    have habout : ∀ {c : Command}, c.account? s.store = some r.account.id →
        c.account? (s.step a).store = some r.account.id :=
      fun hc => he.about hs.works.numbered hf hc
    rcases he.command_before hm with ⟨m', hm', hc, _, hst | ⟨_, hadv⟩⟩ | ⟨_, hst⟩
    · rw [hst] at hr
      exact habout (hc ▸ h.read hm' hr)
    · rcases hadv.reading hr with hr | ⟨_, hread, _⟩
      · exact habout (hc ▸ h.read hm' hr)
      · exact habout hread
    · rw [hst] at hr
      cases hr
  held {n r i} hr hi := by
    rcases (s.step_effect a).run_origin hr with ⟨r', hr', rfl | rfl⟩ | hqueued
    · exact h.held hr' hi
    · have hi : (r'.phase.step r'.order s.works.books s.works.clock).phase.invoice? = some i := hi
      show i.account = r'.order.account
      exact (Pipeline.Phase.account_of_invoice? hi).elim (h.held hr') id
    · rw [hqueued] at hi
      cases hi

theorem Leads.attributed {settings : Config.Settings} {hash : CorrelationToken → UInt64}
    {now : Instant} (h : (System.opened settings hash now).Leads s) (hf : s.Supplied) :
    s.Attributed := by
  induction h with
  | refl => exact .opened settings hash now
  | step h a ih =>
      have hstocked := h.stocked (.opened settings hash now) hf.of_step
      exact (ih hf.of_step).step hstocked hf.of_step a
  | closeAfter _ delay ih =>
      have h := ih hf
      exact ⟨h.read, h.held⟩

theorem spares_work (h : s.Attributed) (hs : s.Stocked) (hf : s.Supplied) {i : Nat}
    (hne : (Action.work i).account? s ≠ some id) :
    Spares id s.store (s.step (.work i)).store := by
  simp only [step]
  cases hm : s.commands[i]? with
  | none => exact .refl _
  | some m =>
      have hne : m.command.account? s.store ≠ some id := by
        simpa [Action.account?, hm] using hne
      simp only
      split
      · exact Command.step_spares hs.works.numbered hf (fun r hr => h.read hm hr) hne
      · exact .refl _

theorem spares_stepRun (h : s.Attributed) (hs : s.Stocked) (hf : s.Supplied)
    (hne : (Action.stepRun n).account? s ≠ some id) :
    Spares id s.store (s.step (.stepRun n)).store := by
  show Spares id s.store (s.works.stepRun n).store
  cases hr : s.works.mover? n with
  | none =>
      rw [Works.stepRun_of_mover?_none hr]
      exact .refl _
  | some r =>
      obtain ⟨hrun, _, _⟩ := Works.mover?_eq_some_iff.mp hr
      have hne : r.order.account ≠ id := by
        simpa [Action.account?, hrun] using hne
      rw [Works.stepRun_of_mover? hr]
      exact Pipeline.Phase.step_spares hs.works.numbered hf hne s.works.clock fun i hi =>
        ⟨h.held hrun hi, hs.works.held hrun hi⟩

theorem spares_createAccount {x : Completion.CallContext} {n : NewAccount}
    (hne : (Action.createAccount x n).account? s ≠ some id) :
    Spares id s.store (s.step (.createAccount x n)).store := by
  have hne : (Id.numbered s.works.books.fresh : AccountId) ≠ id := by
    simpa [Action.account?] using hne
  simp only [step, createAccount, Service.createAccount]
  cases hb : Account.create (.numbered s.works.books.fresh) n s.works.clock with
  | error e => exact .refl _
  | ok b =>
      refine Store.spares_insertAccount ?_
      rw [Account.id_of_create hb]
      exact hne

theorem spares_replaceTags {x : Completion.CallContext} {account : AccountId}
    {tags : ControlTagSet} (hne : (Action.replaceTags x account tags).account? s ≠ some id) :
    Spares id s.store (s.step (.replaceTags x account tags)).store := by
  have hne : account ≠ id := by
    simpa [Action.account?] using hne
  simp only [step, replaceTags, Service.replaceTags, Store.setTags]
  cases hb : s.works.store.account account with
  | error e => exact .refl _
  | ok b =>
      refine Store.spares_insertAccount (a := { b with tags }) ?_
      show b.id ≠ id
      rw [Store.id_of_account? (Command.store_account_ok hb)]
      exact hne

theorem spares_audit {i : Nat} (hne : (Action.audit i).account? s ≠ some id) :
    Spares id s.store (s.step (.audit i)).store := by
  cases hi : s.notices[i]? with
  | none =>
      simp only [step, audit, hi]
      exact .refl _
  | some n =>
      have hne : n.account ≠ id := by
        simpa [Action.account?, hi] using hne
      simp only [step, audit, hi]
      exact Store.spares_recordAudit hne

/-- An action leaves what is kept of accounts that it is not about. -/
theorem spares_step (h : s.Attributed) (hs : s.Stocked) (hf : s.Supplied)
    (hne : a.account? s ≠ some id) : Spares id s.store (s.step a).store := by
  have hsame : (s.step a).store = s.store → Spares id s.store (s.step a).store := by
    intro he
    rw [he]
    exact .refl _
  cases a with
  | submit x completing timeout c =>
      exact hsame (congrArg Works.store (apart_submit s x completing timeout c).1)
  | start i => exact hsame (congrArg Works.store (apart_start s i).1)
  | conclude i => exact hsame (congrArg Works.store (apart_conclude s i).1)
  | work => exact spares_work h hs hf hne
  | stepRun => exact spares_stepRun h hs hf hne
  | createAccount => exact spares_createAccount hne
  | replaceTags => exact spares_replaceTags hne
  | audit => exact spares_audit hne
  | deliver =>
      simp only [step]
      split <;> exact .refl _
  | pass moment =>
      simp only [step]
      split
      · exact .refl _
      · rw [store_passTo]
        exact .refl _
  | _ => exact .refl _

/-- None of these actions is about an account when its turn comes. -/
def Avoids (s : System) (id : AccountId) : List Action → Prop
  | [] => True
  | a :: as => a.account? s ≠ some id ∧ (s.step a).Avoids id as

/-- Any number of actions leave what is kept of accounts that none of them is about. -/
theorem spares_steps (h : s.Attributed) (hs : s.Stocked) (hf : (s.steps as).Supplied)
    (hne : s.Avoids id as) : Spares id s.store (s.steps as).store := by
  induction as generalizing s with
  | nil => exact .refl _
  | cons a as ih =>
      obtain ⟨hfirst, hrest⟩ := hne
      have hsup : s.Supplied := hf.of_steps
      exact (spares_step h hs hsup hfirst).trans
        (ih (h.step hs hsup a) (hs.step hsup a) hf hrest)

end System

end Service

end Billing
