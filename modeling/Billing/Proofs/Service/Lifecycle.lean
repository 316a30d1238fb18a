import Billing.Proofs.Service.Submission

/-!
# The life of a subscription

A subscription is opened, and then changed by commands that refuse whatever is not active. So it
comes to its end once, and never changes afterwards. In every state, whatever the clocks and
whatever has been refused, each subscription that is stored is in order: its account exists, its
plans are known, and it has an end on or after its start exactly if it is not active.
-/

namespace Billing

open Pipeline (Works Books)

/-! ## One subscription -/

/-- The catalog knows a plan. -/
def Catalog.Knows (catalog : Catalog) (plan : String) : Prop :=
  ∃ price, catalog.price? plan = some price

/-- A stored subscription is in order. -/
structure Subscription.Orderly (catalog : Catalog) (store : Store) (x : Subscription) : Prop where
  account : ∃ a, store.account? x.account = some a
  plan : catalog.Knows x.plan
  pending : ∀ p, x.pendingChange = some p → x.state = .active ∧ catalog.Knows p.plan
  active : x.state = .active ↔ x.billingEndDate = none
  dates : ∀ stop, x.billingEndDate = some stop → x.startDate ≤ stop

/-- What a subscription may become: who it is stays, and it comes to its end once. -/
structure Subscription.Becomes (x y : Subscription) : Prop where
  id : y.id = x.id
  bundle : y.bundle = x.bundle
  account : y.account = x.account
  startDate : y.startDate = x.startDate
  createdAt : y.createdAt = x.createdAt
  state : y.state = x.state ∨ x.state = .active ∧ (y.state = .pendingCancel ∨ y.state = .cancelled)
  final : x.state ≠ .active → y = x

namespace Subscription

variable {x y z : Subscription} {catalog : Catalog} {s t : Store}

theorem Becomes.refl (x : Subscription) : x.Becomes x :=
  ⟨rfl, rfl, rfl, rfl, rfl, Or.inl rfl, fun _ => rfl⟩

theorem Becomes.trans (h : x.Becomes y) (k : y.Becomes z) : x.Becomes z where
  id := k.id.trans h.id
  bundle := k.bundle.trans h.bundle
  account := k.account.trans h.account
  startDate := k.startDate.trans h.startDate
  createdAt := k.createdAt.trans h.createdAt
  state := by
    rcases k.state with hk | ⟨hy, hk⟩
    · rw [hk]
      exact h.state
    · -- What is active now was active before.
      refine Or.inr ⟨?_, hk⟩
      rcases h.state with hx | ⟨hx, _⟩
      · exact hx.symm.trans hy
      · exact hx
  final hx := by
    have hy := h.final hx
    exact (k.final (hy.symm ▸ hx)).trans hy

theorem Orderly.of_accounts (h : x.Orderly catalog s)
    (hst : ∀ {id a}, s.account? id = some a → ∃ b, t.account? id = some b) :
    x.Orderly catalog t where
  account := by
    obtain ⟨a, ha⟩ := h.account
    exact hst ha
  plan := h.plan
  pending := h.pending
  active := h.active
  dates := h.dates

end Subscription

/-! ## One command -/

namespace Service.Command

variable {c : Command} {x : Completion.CallContext} {catalog : Catalog} {s : Store} {w : Works}
  {r : Reading} {y z : Subscription} {plan : String}

/-- The plan that a command asks for. -/
def plan? : Command → Option String
  | .create _ plan => some plan
  | .changePlan _ plan _ => some plan
  | .cancel .. => none

/-- The catalog knows the plan that a command asks for. -/
def Offered (c : Command) (catalog : Catalog) : Prop :=
  ∀ plan, c.plan? = some plan → catalog.Knows plan

theorem price_ok {price : Amount} (h : catalog.price plan = .ok price) : catalog.Knows plan := by
  unfold Catalog.price at h
  split at h
  · exact ⟨_, ‹_›⟩
  · cases h

theorem read_offered {read : Account × Amount} (h : c.read catalog s = .ok read) :
    c.Offered catalog := by
  rintro plan' hplan
  cases c with
  | create account plan =>
      cases hplan
      obtain ⟨a, _, h⟩ := bind_ok h
      obtain ⟨price, hprice, _⟩ := bind_ok h
      exact price_ok hprice
  | changePlan subscription plan date =>
      cases hplan
      obtain ⟨y, _, h⟩ := bind_ok h
      obtain ⟨a, _, h⟩ := bind_ok h
      obtain ⟨price, hprice, _⟩ := bind_ok h
      exact price_ok hprice
  | cancel subscription date => cases hplan

theorem orderly_newSubscription (hplan : catalog.Knows plan)
    (haccount : ∃ a, s.account? r.account.id = some a) (fresh : Nat) (now : Instant) :
    (newSubscription r plan fresh now).Orderly catalog s where
  account := haccount
  plan := hplan
  pending _ hp := nomatch hp
  active := ⟨fun _ => rfl, fun _ => rfl⟩
  dates _ hd := nomatch hd

/-- A change of plan is of something active; it is noted for later or made at once. -/
theorem changedPlan_shape {effective today : Date}
    (h : (changedPlan plan effective today y).1 = .ok z) : y.state = .active ∧
      (z = { y with pendingChange := some ⟨plan, effective⟩ } ∨
        z = { y with plan, pendingChange := none }) := by
  unfold changedPlan at h
  split at h
  · cases h
  · rename_i hactive
    refine ⟨Decidable.not_not.mp hactive, ?_⟩
    split at h
    · cases h
    · split at h
      · cases h
        exact Or.inl rfl
      · cases h
        exact Or.inr rfl

/-- A cancellation is of something active, and does not end it before its start. -/
theorem cancelled_shape {stop today : Date} (h : (cancelled stop today y).1 = .ok z) :
    y.state = .active ∧ y.startDate ≤ stop ∧ ∃ state : SubscriptionState,
      (state = .pendingCancel ∨ state = .cancelled) ∧
        z = { y with billingEndDate := some stop, pendingChange := none, state } := by
  unfold cancelled at h
  split at h
  · cases h
  · rename_i hactive
    split at h
    · cases h
    · rename_i hstart
      cases h
      refine ⟨Decidable.not_not.mp hactive, Int.not_lt.mp hstart, _, ?_, rfl⟩
      split
      · exact Or.inl rfl
      · exact Or.inr rfl

theorem changedPlan_becomes {effective today : Date}
    (h : (changedPlan plan effective today y).1 = .ok z) : y.Becomes z := by
  obtain ⟨hactive, rfl | rfl⟩ := changedPlan_shape h
  · exact ⟨rfl, rfl, rfl, rfl, rfl, Or.inl rfl, fun hn => absurd hactive hn⟩
  · exact ⟨rfl, rfl, rfl, rfl, rfl, Or.inl rfl, fun hn => absurd hactive hn⟩

theorem cancelled_becomes {stop today : Date} (h : (cancelled stop today y).1 = .ok z) :
    y.Becomes z := by
  obtain ⟨hactive, _, state, hstate, rfl⟩ := cancelled_shape h
  exact ⟨rfl, rfl, rfl, rfl, rfl, Or.inr ⟨hactive, hstate⟩, fun hn => absurd hactive hn⟩

theorem orderly_changedPlan {effective today : Date} (hy : y.Orderly catalog s)
    (hplan : catalog.Knows plan) (h : (changedPlan plan effective today y).1 = .ok z) :
    z.Orderly catalog s := by
  obtain ⟨hactive, rfl | rfl⟩ := changedPlan_shape h
  · refine ⟨hy.account, hy.plan, fun p hp => ?_, hy.active, hy.dates⟩
    cases hp
    exact ⟨hactive, hplan⟩
  · exact ⟨hy.account, hplan, (fun _ hp => nomatch hp), hy.active, hy.dates⟩

theorem orderly_cancelled {stop today : Date} (hy : y.Orderly catalog s)
    (h : (cancelled stop today y).1 = .ok z) : z.Orderly catalog s := by
  obtain ⟨_, hstart, state, hstate, rfl⟩ := cancelled_shape h
  refine ⟨hy.account, hy.plan, (fun _ hp => nomatch hp), ⟨fun hactive => ?_, fun hn => nomatch hn⟩,
    fun d hd => ?_⟩
  · have hactive : state = .active := hactive
    rcases hstate with rfl | rfl
    · cases hactive
    · cases hactive
  · cases hd
    exact hstart

theorem Makes.orderly (h : c.Makes r w z) (hoffered : c.Offered catalog)
    (haccount : ∃ a, w.store.account? r.account.id = some a)
    (horderly : ∀ y ∈ w.store.subscriptions, y.Orderly catalog w.store) :
    z.Orderly catalog w.store := by
  cases h with
  | created => exact orderly_newSubscription (hoffered _ rfl) haccount _ _
  | changed hfound hchange =>
      exact orderly_changedPlan (horderly _ (Store.Table.mem_of_find? hfound)) (hoffered _ rfl)
        hchange
  | cancelled hfound hchange =>
      exact orderly_cancelled (horderly _ (Store.Table.mem_of_find? hfound)) hchange

/-- What a command makes has an identifier of its own, or it is what a stored subscription
becomes. -/
theorem Makes.becomes (h : c.Makes r w z) :
    z.id = .numbered w.books.fresh ∨ ∃ y, w.store.subscription? z.id = some y ∧ y.Becomes z := by
  cases h with
  | created => exact Or.inl rfl
  | changed hfound hchange =>
      have hb := changedPlan_becomes hchange
      refine Or.inr ⟨_, ?_, hb⟩
      rw [hb.id, Store.id_of_subscription? hfound, hfound]
  | cancelled hfound hchange =>
      have hb := cancelled_becomes hchange
      refine Or.inr ⟨_, ?_, hb⟩
      rw [hb.id, Store.id_of_subscription? hfound, hfound]

/-- A stage of a command leaves the subscriptions as they are, or puts the one that it makes. -/
theorem step_subscriptions (c : Command) (x : Completion.CallContext) (catalog : Catalog)
    (w : Works) (stage : Stage) :
    (c.step x catalog w stage).2.store.subscriptions = w.store.subscriptions ∨
      ∃ r z, stage = .updating r ∧ c.Makes r w z ∧
        (c.step x catalog w stage).2.store = w.store.insertSubscription z := by
  cases stage with
  | updating r =>
      simp only [step]
      cases hupdate : c.update r w with
      | mk answer v =>
          cases answer with
          | error e =>
              rw [update_error hupdate]
              exact Or.inl rfl
          | ok z =>
              obtain ⟨hmakes, hstore, _⟩ := update_ok hupdate
              exact Or.inr ⟨r, z, rfl, hmakes, hstore⟩
  | reading =>
      refine Or.inl ?_
      simp only [step]
      split
      · rfl
      · split <;> rfl
  | launching r changed =>
      refine Or.inl ?_
      simp only [step]
      split <;> rfl
  | _ => exact Or.inl rfl

/-- A command that goes on has read its plan from the catalog. -/
theorem step_offered {stage : Stage} (h : stage.reading? ≠ none → c.Offered catalog)
    (hr : (c.step x catalog w stage).1.reading? ≠ none) : c.Offered catalog := by
  cases stage with
  | reading =>
      simp only [step] at hr
      split at hr
      · exact absurd rfl hr
      · exact read_offered ‹_›
  | done result run => exact absurd rfl hr
  | crashed => exact absurd rfl hr
  | _ => exact h (by rintro ⟨⟩)

end Service.Command

/-! ## Every state -/

namespace Service.System

variable {s t : System}

/-- An account that is there stays there. -/
theorem exists_account?_step (a : Action) {id : AccountId} {b : Account}
    (hb : s.store.account? id = some b) : ∃ b', (s.step a).store.account? id = some b' := by
  obtain ⟨_, he⟩ := (s.step_effect a).entry
  refine Option.ne_none_iff_exists'.mp (he.finds_account ?_)
  rw [show s.works.books.store.account? id = some b from hb]
  exact Option.some_ne_none b

theorem catalog_step (s : System) (a : Action) : (s.step a).catalog = s.catalog := by
  cases a with
  | submit x completing timeout c => exact (apart_submit s x completing timeout c).2
  | start i => exact (apart_start s i).2
  | conclude i => exact (apart_conclude s i).2
  | work i =>
      simp only [step]
      split
      · split <;> rfl
      · rfl
  | deliver =>
      simp only [step]
      split <;> rfl
  | pass moment =>
      simp only [step]
      split
      · rfl
      · unfold passTo
        extract_lets moment later
        have hlater : later.catalog = s.catalog := rfl
        split <;> exact hlater
  | _ => rfl

/-- An action leaves the subscriptions as they are, or it puts the one that a command makes. -/
theorem step_subscriptions (s : System) (a : Action) :
    (s.step a).store.subscriptions = s.store.subscriptions ∨
      ∃ (i : Nat) (m : Submitted) (r : Reading) (z : Subscription),
        s.commands[i]? = some m ∧ m.stage = .updating r ∧ m.command.Makes r s.works z ∧
          (s.step a).store = s.store.insertSubscription z := by
  cases a with
  | submit x completing timeout c =>
      exact Or.inl (congrArg (·.store.subscriptions) (apart_submit s x completing timeout c).1)
  | start i => exact Or.inl (congrArg (·.store.subscriptions) (apart_start s i).1)
  | conclude i => exact Or.inl (congrArg (·.store.subscriptions) (apart_conclude s i).1)
  | work i =>
      simp only [step]
      split
      · rename_i m hm
        split
        · rcases m.command.step_subscriptions m.context s.catalog s.works m.stage with
            hsame | ⟨r, z, hstage, hmakes, hstore⟩
          · exact Or.inl hsame
          · exact Or.inr ⟨i, m, r, z, hm, hstage, hmakes, hstore⟩
        · exact Or.inl rfl
      · exact Or.inl rfl
  | stepRun n => exact Or.inl (s.works.stepRun_beside n).subscriptions
  | deliver =>
      simp only [step]
      split <;> exact Or.inl rfl
  | createAccount x n =>
      simp only [step, createAccount, Service.createAccount]
      split <;> exact Or.inl rfl
  | replaceTags x id tags =>
      simp only [step, replaceTags, Service.replaceTags, Store.setTags]
      cases s.works.store.account id <;> exact Or.inl rfl
  | audit i =>
      simp only [step, audit]
      split <;> exact Or.inl rfl
  | pass moment =>
      simp only [step]
      split
      · exact Or.inl rfl
      · exact Or.inl (congrArg (·.subscriptions) (store_passTo s moment))
  | _ => exact Or.inl rfl

/-- Every subscription is in order, and so is whatever a command is about to make of it. -/
structure Tended (s : System) : Prop where
  offered : ∀ {j : Nat} {m : Submitted}, s.commands[j]? = some m →
    m.stage.reading? ≠ none → m.command.Offered s.catalog
  read : ∀ {j : Nat} {m : Submitted} {r : Reading}, s.commands[j]? = some m →
    m.stage.reading? = some r → ∃ b, s.store.account? r.account.id = some b
  apart : Store.Table.Apart (·.id) s.store.subscriptions
  orderly : ∀ x ∈ s.store.subscriptions, x.Orderly s.catalog s.store

theorem Tended.opened (settings : Config.Settings) (hash : CorrelationToken → UInt64)
    (now : Instant) : (System.opened settings hash now).Tended where
  offered h := nomatch h
  read h := nomatch h
  apart := List.Pairwise.nil
  orderly _ hx := nomatch hx

theorem Tended.read_step (h : s.Tended) (a : Action) {j : Nat} {m : Submitted} {r : Reading}
    (hm : (s.step a).commands[j]? = some m) (hr : m.stage.reading? = some r) :
    ∃ b, (s.step a).store.account? r.account.id = some b := by
  have hkept : (∃ b, s.store.account? r.account.id = some b) →
      ∃ b, (s.step a).store.account? r.account.id = some b :=
    fun ⟨_, hb⟩ => exists_account?_step a hb
  rcases (s.step_effect a).command_before hm with
    ⟨m', hm', _, _, hst | ⟨_, hadv⟩⟩ | ⟨_, hst⟩
  · rw [hst] at hr
    exact hkept (h.read hm' hr)
  · rcases hadv.reading hr with hr | ⟨_, _, hfound⟩
    · exact hkept (h.read hm' hr)
    · exact hkept ⟨_, hfound⟩
  · rw [hst] at hr
    cases hr

/-- A stage that a command has come to is one that it had, or the one after it. -/
theorem command_step {a : Action} {j : Nat} {m : Submitted}
    (hm : (s.step a).commands[j]? = some m) :
    m.stage = .reading ∨ ∃ m' : Submitted, s.commands[j]? = some m' ∧ m.command = m'.command ∧
      (m.stage = m'.stage ∨
        m.stage = (m'.command.step m'.context s.catalog s.works m'.stage).1) := by
  rcases (s.step_effect a).command_before hm with
    ⟨m', hm', hcommand, _, hst | ⟨rfl, _⟩⟩ | ⟨_, hst⟩
  · exact Or.inr ⟨m', hm', hcommand.symm, Or.inl hst⟩
  · refine Or.inr ⟨m', hm', hcommand.symm, ?_⟩
    simp only [step, hm'] at hm
    split at hm
    · rcases (getElem?_set_eq_some_iff hm').mp hm with ⟨_, rfl⟩ | ⟨hj, _⟩
      · exact Or.inr rfl
      · exact absurd rfl hj
    · rw [hm'] at hm
      cases hm
      exact Or.inl rfl
  · exact Or.inl hst

theorem Tended.offered_step (h : s.Tended) (a : Action) {j : Nat} {m : Submitted}
    (hm : (s.step a).commands[j]? = some m) (hr : m.stage.reading? ≠ none) :
    m.command.Offered (s.step a).catalog := by
  rw [catalog_step]
  rcases command_step hm with hst | ⟨m', hm', hcommand, hst | hst⟩
  · rw [hst] at hr
    exact absurd rfl hr
  · rw [hst] at hr
    rw [hcommand]
    exact h.offered hm' hr
  · rw [hst] at hr
    rw [hcommand]
    exact Command.step_offered (h.offered hm') hr

theorem Tended.step (h : s.Tended) (a : Action) : (s.step a).Tended := by
  have hkept : ∀ {x : Subscription}, x.Orderly s.catalog s.store →
      x.Orderly (s.step a).catalog (s.step a).store := by
    intro x hx
    rw [catalog_step]
    exact hx.of_accounts (exists_account?_step a)
  refine ⟨h.offered_step a, h.read_step a, ?_, fun x hx => ?_⟩
  · rcases s.step_subscriptions a with hsame | ⟨i, m, r, z, _, _, _, hstore⟩
    · rw [hsame]
      exact h.apart
    · rw [hstore]
      exact h.apart.put z
  · apply hkept
    rcases s.step_subscriptions a with hsame | ⟨i, m, r, z, hm, hstage, hmakes, hstore⟩
    · rw [hsame] at hx
      exact h.orderly x hx
    · rw [hstore] at hx
      rcases Store.Table.mem_put hx with rfl | hx
      · have hreading : m.stage.reading? = some r := by rw [hstage]; rfl
        refine hmakes.orderly (h.offered hm ?_) (h.read hm hreading) h.orderly
        rw [hreading]
        exact fun hn => nomatch hn
      · exact h.orderly x hx

theorem Leads.tended (h : s.Leads t) (hs : s.Tended) : t.Tended := by
  induction h with
  | refl => exact hs
  | step _ a ih => exact ih.step a
  | closeAfter _ delay ih => exact ⟨ih.offered, ih.read, ih.apart, ih.orderly⟩

/-! ## What becomes of a subscription -/

theorem Leads.fresh_le (h : s.Leads t) : s.works.books.fresh ≤ t.works.books.fresh := by
  induction h with
  | refl => exact Nat.le_refl _
  | step _ a ih => exact Nat.le_trans ih (fresh_le_step _ a)
  | closeAfter _ delay ih => exact ih

theorem Leads.supplied (h : s.Leads t) (ht : t.Supplied) : s.Supplied :=
  Nat.lt_of_le_of_lt h.fresh_le ht

theorem Leads.stocked (h : s.Leads t) (hs : s.Stocked) (ht : t.Supplied) : t.Stocked := by
  induction h with
  | refl => exact hs
  | step _ a ih => exact (ih ht.of_step).step ht.of_step a
  | closeAfter _ delay ih =>
      have h := ih ht
      exact ⟨h.works, h.read, h.billed⟩

theorem becomes_step (hs : s.Stocked) (hf : s.Supplied) (a : Action) {id : SubscriptionId}
    {x : Subscription} (hx : s.store.subscription? id = some x) :
    ∃ y, (s.step a).store.subscription? id = some y ∧ x.Becomes y := by
  rcases s.step_subscriptions a with hsame | ⟨i, m, r, z, _, _, hmakes, hstore⟩
  · refine ⟨x, ?_, .refl x⟩
    rw [Store.subscription?, hsame]
    exact hx
  · rw [hstore, Store.subscription?_insertSubscription]
    split
    · rename_i hid
      subst hid
      rcases hmakes.becomes with hfresh | ⟨y, hy, hbecomes⟩
      · -- Nothing is stored yet under the identifier that is handed out next.
        exact absurd hfresh.symm ((hs.works.numbered.subscriptions hx).ne hf)
      · have hy : s.store.subscription? z.id = some y := hy
        rw [hx] at hy
        cases hy
        exact ⟨z, rfl, hbecomes⟩
    · exact ⟨x, hx, .refl x⟩

theorem Leads.becomes (h : s.Leads t) (hs : s.Stocked) (ht : t.Supplied) {id : SubscriptionId}
    {x : Subscription} (hx : s.store.subscription? id = some x) :
    ∃ y, t.store.subscription? id = some y ∧ x.Becomes y := by
  induction h with
  | refl => exact ⟨x, hx, .refl x⟩
  | step hst a ih =>
      -- Identifiers that suffice up to the end suffice up to each state before.
      obtain ⟨y, hy, hxy⟩ := ih ht.of_step
      obtain ⟨z, hz, hyz⟩ := becomes_step (hst.stocked hs ht.of_step) ht.of_step a hy
      exact ⟨z, hz, hxy.trans hyz⟩
  | closeAfter _ delay ih => exact ih ht

/-- In every state, each subscription that is stored is found under its identifier and is in order.
As long as no identifier is handed out twice, which is what `Supplied` says, it is found there ever
after, as what it may become. -/
theorem subscription_lifecycle (settings : Config.Settings) (hash : CorrelationToken → UInt64)
    (now : Instant) (reached : (System.opened settings hash now).Leads s) :
    ∀ x ∈ s.store.subscriptions, s.store.subscription? x.id = some x ∧
      x.Orderly s.catalog s.store ∧
      ∀ t, s.Leads t → t.Supplied → ∃ y, t.store.subscription? x.id = some y ∧ x.Becomes y := by
  intro x hx
  have htended := reached.tended (.opened settings hash now)
  have hfound : s.store.subscription? x.id = some x := htended.apart.find? hx
  refine ⟨hfound, htended.orderly x hx, fun t hst ht => ?_⟩
  have hstocked := reached.stocked (.opened settings hash now) (hst.supplied ht)
  exact hst.becomes hstocked ht hfound

/-! ### A subscription that ends -/

/-- An account is created, and a plan is ordered for it. -/
def ordered : System :=
  (((System.opened .default (fun _ => 0) .epoch).step
    (.createAccount ⟨.numbered 7, none, .none⟩ ⟨"Acme", 0, .empty, true⟩)).submit
      ⟨.numbered 7, some (.numbered 0), .none⟩ false 0 (.create (.numbered 0) "pro-monthly")).2

theorem ordered_reached :
    (System.opened .default (fun _ => 0) .epoch).Leads ordered :=
  (Leads.refl.step _).trans (leads_submit _ _ _ _ _)

/-- The plan is cancelled at once. -/
def ended : System :=
  (ordered.submit ⟨.numbered 8, some (.numbered 0), .none⟩ false 0 (.cancel (.numbered 1) none)).2

theorem ended_supplied : ended.Supplied := by
  show ended.works.books.fresh < Id.supply
  decide

theorem ended_lifecycle : ∃ x ∈ ordered.store.subscriptions, x.state = .active ∧
    x.Orderly ordered.catalog ordered.store ∧
    ∃ y, ended.store.subscription? x.id = some y ∧ x.Becomes y ∧ y.state = .cancelled := by
  have hlater : ordered.Leads ended := leads_submit _ _ _ _ _
  obtain ⟨x, hx, hactive⟩ : ∃ x ∈ ordered.store.subscriptions, x.state = .active :=
    ⟨_, List.mem_cons_self, rfl⟩
  obtain ⟨_, horderly, hbecomes⟩ :=
    subscription_lifecycle .default (fun _ => 0) .epoch ordered_reached x hx
  obtain ⟨y, hy, hxy⟩ := hbecomes ended hlater ended_supplied
  refine ⟨x, hx, hactive, horderly, y, hy, hxy, ?_⟩
  have hall : ∀ y ∈ ended.store.subscriptions, y.state = .cancelled := by decide
  exact hall y (Store.Table.mem_of_find? hy)

end Service.System

end Billing
