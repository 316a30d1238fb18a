import Billing.Proofs.Service.PlanChange

/-!
# Cancellations

A subscription is cancelled once. Many commands may have read it before any of them changes it; the
one that finds it active decides, and whoever comes after it is refused. What becomes of the
subscription is decided where it is changed, and whether a run is started only afterwards, from what
is stored by then.
-/

namespace Billing

theorem EffectTiming.forAccount?_due {now : Instant} {offset : Int} {today d : Date}
    (hnow : now.localDate? offset = some today) (hd : d ≤ today) :
    forAccount? [d] now offset = some .immediate := by
  have hnot : ¬ today < d := Int.not_lt.mpr hd
  simp [forAccount?, hnow, classify, hnot, latest?]

namespace Service

open Pipeline (Order Works)

/-! ## Who has changed a subscription -/

/-- What a command has made of its subscription. -/
def Stage.changed? : Stage → Option Subscription
  | .auditing _ z | .launching _ z => some z
  | .done (.ok e) _ => some e.value
  | _ => none

namespace Command

variable {c : Command} {x : Completion.CallContext} {catalog : Catalog} {w v : Works}
  {stage stage' : Stage} {r : Reading} {y z : Subscription} {id : SubscriptionId}
  {stop today : Date} {e : DomainError} {run : Option Nat}

/-- The subscription that a command is to change. -/
def changes? : Command → Option SubscriptionId
  | .create .. => none
  | .changePlan id _ _ | .cancel id _ => some id

/-- A command has changed its subscription before, or it does so under the lock. -/
theorem of_step_changed (h : c.step x catalog w stage = (stage', v))
    (hz : stage'.changed? = some z) :
    stage.changed? = some z ∨ ∃ r, stage = .updating r ∧ c.update r w = (.ok z, v) := by
  cases stage with
  | reading =>
      simp only [step] at h
      split at h
      · cases h
        cases hz
      · split at h <;> cases h <;> cases hz
  | updating r =>
      simp only [step] at h
      split at h
      · cases h
        cases hz
      · rename_i hupdate
        cases h
        cases hz
        exact Or.inr ⟨r, rfl, hupdate⟩
  | auditing r z' =>
      cases h
      exact Or.inl hz
  | launching r z' =>
      simp only [step] at h
      split at h
      · cases h
        cases hz
      · cases h
        exact Or.inl hz
      · cases h
        exact Or.inl hz
  | done result run =>
      cases h
      exact Or.inl hz
  | crashed =>
      cases h
      cases hz

theorem of_step_refused (h : c.step x catalog w stage = (.done (.error e) run, v))
    (hne : stage ≠ .done (.error e) run) :
    run = none ∧ (stage = .reading ∧ c.read catalog w.store = .error e ∨
      ∃ r, stage = .updating r ∧ c.update r w = (.error e, v)) := by
  cases stage with
  | reading =>
      simp only [step] at h
      split at h
      · rename_i hread
        cases h
        exact ⟨rfl, Or.inl ⟨rfl, hread⟩⟩
      · split at h <;> cases h
  | updating r =>
      simp only [step] at h
      split at h
      · rename_i hupdate
        cases h
        exact ⟨rfl, Or.inr ⟨r, rfl, hupdate⟩⟩
      · cases h
  | launching r z =>
      simp only [step] at h
      split at h <;> cases h
  | done result run' =>
      cases h
      exact absurd rfl hne
  | _ => cases h

theorem of_step_crashed (h : c.step x catalog w stage = (.crashed, v)) (hne : stage ≠ .crashed) :
    stage = .reading ∧ (∃ a amount, c.read catalog w.store = .ok (a, amount) ∧
        a.today? w.clock = none) ∨
      ∃ r z, stage = .launching r z ∧ c.timing? r z w.clock = none := by
  cases stage with
  | reading =>
      simp only [step] at h
      split at h
      · cases h
      · rename_i hread
        split at h
        · rename_i htoday
          exact Or.inl ⟨rfl, _, _, hread, htoday⟩
        · cases h
  | updating r =>
      simp only [step] at h
      split at h <;> cases h
  | launching r z =>
      simp only [step] at h
      split at h
      · rename_i htiming
        exact Or.inr ⟨r, z, rfl, htiming⟩
      · cases h
      · cases h
  | crashed => exact absurd rfl hne
  | _ => cases h

/-- What is changed was active. -/
theorem Makes.active (h : c.Makes r w z) (hid : c.changes? = some id) :
    ∃ y, w.store.subscription? id = some y ∧ y.state = .active := by
  cases h with
  | created => cases hid
  | changed hfound hchange =>
      cases hid
      exact ⟨_, hfound, (changedPlan_shape hchange).1⟩
  | cancelled hfound hchange =>
      cases hid
      exact ⟨_, hfound, (cancelled_shape hchange).1⟩

/-! ## What a cancellation is answered -/

theorem cancelled_of_inactive (stop today : Date) (h : y.state ≠ .active) :
    (cancelled stop today y).1 =
      .error (.invariant ("subscription " ++ y.id.text ++ " is already cancelled")) := by
  rw [cancelled, if_pos h]

theorem cancelled_of_early (today : Date) (h : y.state = .active) (hs : stop < y.startDate) :
    (cancelled stop today y).1 =
      .error (.validation "cancellation date precedes start date") := by
  rw [cancelled, if_neg (fun hn => hn h), if_pos hs]

theorem cancelled_of_active (today : Date) (h : y.state = .active) (hs : y.startDate ≤ stop) :
    (cancelled stop today y).1 =
      .ok { y with
        billingEndDate := some stop
        pendingChange := none
        state := if today < stop then .pendingCancel else .cancelled } := by
  have hnot : ¬ stop < y.startDate := Int.not_lt.mpr hs
  rw [cancelled, if_neg (fun hn => hn h), if_neg hnot]
  rfl

theorem read_cancel {s : Store} {a : Account} (date : Option Date)
    (hy : s.subscription? id = some y) (ha : s.account? y.account = some a) :
    (cancel id date).read catalog s = .ok (a, .zero) := by
  have hfound : s.subscription id = .ok y := by
    rw [Store.subscription, hy]
  have haccount : s.account y.account = .ok a := by
    rw [Store.account, ha]
  simp only [read, hfound, haccount, bind, Except.bind]

theorem update_cancel (r : Reading) (date : Option Date)
    (hy : w.store.subscription? id = some y) :
    ((cancel id date).update r w).1 = (cancelled (date.getD r.today) r.today y).1 := by
  have hfound : w.store.subscription id = .ok y := by
    rw [Store.subscription, hy]
  simp only [update, Store.updateSubscription, hfound]

/-- The answer of a cancellation tells in which of three states it has found the subscription. -/
theorem cancelled_answer {result : Except DomainError (Executed Subscription)}
    (h : result.map (·.value) = (cancelled stop today y).1) :
    (result = .error (.invariant ("subscription " ++ y.id.text ++ " is already cancelled")) ↔
        y.state ≠ .active) ∧
      (result = .error (.validation "cancellation date precedes start date") ↔
        y.state = .active ∧ stop < y.startDate) ∧
      ((∃ done, result = .ok done) ↔ y.state = .active ∧ y.startDate ≤ stop) := by
  have hrefused : ∀ e, (cancelled stop today y).1 = .error e → result = .error e := by
    intro e he
    cases result with
    | error e' => exact congrArg _ (Except.error.inj (h.trans he))
    | ok done => cases h.trans he
  by_cases hactive : y.state = .active
  · by_cases hearly : stop < y.startDate
    · have hnot : ¬ y.startDate ≤ stop := Int.not_le.mpr hearly
      simp [hrefused _ (cancelled_of_early today hactive hearly), hactive, hearly, hnot]
    · have hstart : y.startDate ≤ stop := Int.not_lt.mp hearly
      rw [cancelled_of_active today hactive hstart] at h
      cases result with
      | error e => cases h
      | ok done => simp [hactive, hearly, hstart]
  · simp [hrefused _ (cancelled_of_inactive stop today hactive), hactive]

end Command

namespace System

variable {s t u : System} {a : Action} {as : List Action} {j k : Nat} {m : Submitted}
  {c : Command} {x : Completion.CallContext} {r : Reading} {y z : Subscription}
  {id : SubscriptionId}

/-! ## Only what is active changes -/

/-- A command has changed its subscription before an action, or it does so in it. -/
theorem changed_step (hm : (s.step a).commands[k]? = some m) (hz : m.stage.changed? = some z) :
    (∃ m', s.commands[k]? = some m' ∧ m'.command = m.command ∧ m'.stage.changed? = some z) ∨
      a = .work k ∧ ∃ r, m.command.Makes r s.works z ∧
        (s.step a).store = s.store.insertSubscription z := by
  rcases (s.step_effect a).command_before hm with
    ⟨⟨c, x, stage⟩, hm', hc, hx, hst | ⟨rfl, _⟩⟩ | ⟨_, hst⟩
  · exact Or.inl ⟨_, hm', hc, by rw [← hst]; exact hz⟩
  · obtain ⟨c', x', stage'⟩ := m
    obtain rfl : c = c' := hc
    obtain rfl : x = x' := hx
    by_cases hne : stage = stage'
    · exact Or.inl ⟨_, hm', rfl, by rw [hne]; exact hz⟩
    · obtain ⟨_, hstep⟩ := step_of_moved hm' hm hne
      rcases Command.of_step_changed hstep hz with hz | ⟨r, _, hupdate⟩
      · exact Or.inl ⟨_, hm', rfl, hz⟩
      · obtain ⟨hmakes, hstore, _⟩ := Command.update_ok hupdate
        exact Or.inr ⟨rfl, r, hmakes, hstore⟩
  · rw [hst] at hz
    cases hz

theorem Leads.command (h : s.Leads t) (hm : s.commands[k]? = some m) :
    ∃ stage, t.commands[k]? = some { m with stage } := by
  induction h with
  | refl => exact ⟨m.stage, hm⟩
  | closeAfter _ delay ih => exact ih
  | step _ a ih =>
      obtain ⟨stage, hstage⟩ := ih
      obtain ⟨stage', hstage', _⟩ := (System.step_effect _ a).command hstage
      exact ⟨stage', hstage'⟩

/-- Once a subscription is not active, nobody changes it who has not done so before. -/
theorem changed_before (h : u.Leads t) (hu : u.Stocked) (ht : t.Supplied)
    (hy : u.store.subscription? id = some y) (hstate : y.state ≠ .active)
    (hm : t.commands[k]? = some m) (hid : m.command.changes? = some id)
    (hz : m.stage.changed? = some z) :
    ∃ m', u.commands[k]? = some m' ∧ m'.command = m.command ∧ m'.stage.changed? = some z := by
  induction h generalizing m with
  | refl => exact ⟨m, hm, rfl, hz⟩
  | closeAfter _ delay ih => exact ih ht hm hid hz
  | @step t h a ih =>
      rcases changed_step hm hz with ⟨m', hm', hc, hz'⟩ | ⟨_, r, hmakes, _⟩
      · obtain ⟨m'', hm'', hc', hz''⟩ := ih ht.of_step hm' (hc ▸ hid) hz'
        exact ⟨m'', hm'', hc'.trans hc, hz''⟩
      · -- Who changes it finds it active, and by now it is not.
        obtain ⟨y', hy', hactive⟩ := hmakes.active hid
        obtain ⟨y'', hy'', hbecomes⟩ := h.becomes hu ht.of_step hy
        have hy' : t.store.subscription? id = some y' := hy'
        rw [hy''] at hy'
        cases hy'
        rw [hbecomes.final hstate] at hactive
        exact absurd hactive hstate

/-- Whatever a cancellation has changed is stored, and not active. -/
theorem inactive_of_cancel {settings : Config.Settings} {hash : CorrelationToken → UInt64}
    {now : Instant} (h : (System.opened settings hash now).Leads t) (ht : t.Supplied)
    {date : Option Date} (hm : t.commands[k]? = some m) (hc : m.command = .cancel id date)
    (hz : m.stage.changed? = some z) :
    ∃ y, t.store.subscription? id = some y ∧ y.state ≠ .active := by
  induction h generalizing m with
  | refl => cases hm
  | closeAfter _ delay ih => exact ih ht hm hc hz
  | @step t h a ih =>
      rcases changed_step hm hz with ⟨m', hm', hc', hz'⟩ | ⟨_, r, hmakes, hstore⟩
      · obtain ⟨y, hy, hstate⟩ := ih ht.of_step hm' (hc'.trans hc) hz'
        have hstocked := h.stocked (.opened settings hash now) ht.of_step
        obtain ⟨y', hy', hbecomes⟩ := becomes_step hstocked ht.of_step a hy
        exact ⟨y', hy', by rwa [hbecomes.final hstate]⟩
      · rw [hc] at hmakes
        cases hmakes with
        | cancelled hfound hchange =>
            have hid := ((Command.careful_cancelled _ _).done hchange).2.1.trans
              (Store.id_of_subscription? hfound)
            refine ⟨z, ?_, ?_⟩
            · rw [hstore, Store.subscription?_insertSubscription, if_pos hid]
            · obtain ⟨_, _, state, rfl | rfl, rfl⟩ := Command.cancelled_shape hchange
              · exact nofun
              · exact nofun

/-! ## A cancellation among other actions -/

/-- A command that is refused is refused for what it reads, or for the subscription that it is to
change. -/
theorem exists_refusal {e : DomainError} {run : Option Nat}
    (submitted : s.commands[j]? = some ⟨c, x, .reading⟩)
    (refused : (s.steps as).commands[j]? = some ⟨c, x, .done (.error e) run⟩) :
    run = none ∧ ((∃ reading, reading ++ [.work j] <+: as ∧
        c.read s.catalog (s.steps reading).store = .error e) ∨
      ∃ r reading changing, reading ++ [.work j] <+: changing ∧ changing ++ [.work j] <+: as ∧
        c.read s.catalog (s.steps reading).store = .ok (r.account, r.amount) ∧
          r.account.today? (s.steps reading).works.clock = some r.today ∧
            c.update r (s.steps changing).works =
              (.error e, (s.steps (changing ++ [.work j])).works)) := by
  obtain ⟨past, stage, hpast, hstage, _, hne, hstep⟩ := exists_stage submitted refused nofun
  obtain ⟨hrun, hrefused⟩ := Command.of_step_refused hstep hne
  refine ⟨hrun, ?_⟩
  rcases hrefused with ⟨_, hread⟩ | ⟨r, rfl, hupdate⟩
  · exact Or.inl ⟨past, hpast, hread⟩
  · obtain ⟨reading, stage, hreading, hstage, _, hne, hstep⟩ := exists_stage submitted hstage nofun
    obtain ⟨_, hread, htoday⟩ := Command.of_step_updating hstep hne
    exact Or.inr ⟨r, reading, past, hreading, hpast, hread, htoday, hupdate⟩

/-- What comes of a cancellation that succeeds, given the account and the subscription that it
finds. -/
structure Cancelled (s : System) (as : List Action) (j : Nat) (id : SubscriptionId) (stop : Date)
    (x : Completion.CallContext) (done : Executed Subscription) (r : Reading) (y : Subscription)
    (changing : List Action) : Prop where
  stored : (s.steps (changing ++ [.work j])).store.subscription? id = some done.value
  /-- A cancellation that is due is final at once, and one run is started for it. -/
  due : stop ≤ r.today →
    done = .immediate
        { y with state := .cancelled, billingEndDate := some stop, pendingChange := none } ∧
      s.launches j as = [⟨x.token, r.account.id, id, .cancel, .zero⟩]
  /-- A later one is pending until its date, and no run is started. -/
  later : r.today < stop →
    done = .deferred
        { y with state := .pendingCancel, billingEndDate := some stop, pendingChange := none }
        stop ∧
      s.launches j as = []
  /-- No other cancellation has succeeded or ever will. -/
  once : ∀ t, (s.steps as).Leads t → t.Supplied → ∀ (i : Nat) (m : Submitted) (date : Option Date)
    (e : Executed Subscription) (run : Option Nat), t.commands[i]? = some m →
      m.command = .cancel id date → m.stage = .done (.ok e) run → i = j
  /-- A change of plan that ever succeeds has been made before. -/
  final : ∀ t, (s.steps as).Leads t → t.Supplied → ∀ (k : Nat) (m : Submitted) (plan : String)
    (date : Option Date) (e : Executed Subscription) (run : Option Nat), t.commands[k]? = some m →
      m.command = .changePlan id plan date → m.stage = .done (.ok e) run →
        ∃ m', (s.steps changing).commands[k]? = some m' ∧ m'.stage.changed? = some e.value

/-- What comes of a cancellation, given what it has read and the subscription that it finds when it
is to change it. -/
structure Cancellation (s : System) (as : List Action) (j : Nat) (id : SubscriptionId)
    (date : Option Date) (x : Completion.CallContext)
    (result : Except DomainError (Executed Subscription)) (r : Reading) (y : Subscription)
    (reading changing : List Action) : Prop where
  order : reading ++ [.work j] <+: changing ∧ changing ++ [.work j] <+: as
  account : (s.steps reading).store.account? y.account = some r.account
  today : r.account.today? s.works.clock = some r.today
  found : (s.steps changing).store.subscription? id = some y
  inactive : result = .error (.invariant ("subscription " ++ id.text ++ " is already cancelled")) ↔
    y.state ≠ .active
  early : result = .error (.validation "cancellation date precedes start date") ↔
    y.state = .active ∧ date.getD r.today < y.startDate
  accepted : (∃ done, result = .ok done) ↔ y.state = .active ∧ y.startDate ≤ date.getD r.today
  refused : ∀ e, result = .error e →
    (s.steps (changing ++ [.work j])).store = (s.steps changing).store ∧ s.launches j as = []
  succeeded : ∀ done, result = .ok done →
    s.Cancelled as j id (date.getD r.today) x done r y changing

/-- A cancellation that succeeds finds its subscription active, and ends it. -/
theorem Journey.ended {date : Option Date} {done : Executed Subscription}
    {reading changing launching : List Action}
    (h : s.Journey as j (.cancel id date) x r done reading changing launching)
    (found : (s.steps changing).store.subscription? id = some y) :
    y.state = .active ∧ done.value = { y with
      billingEndDate := some (date.getD r.today)
      pendingChange := none
      state := if r.today < date.getD r.today then .pendingCancel else .cancelled } := by
  cases h.makes with
  | cancelled hfound hchange =>
      have hfound : (s.steps changing).store.subscription? id = some _ := hfound
      rw [found] at hfound
      cases hfound
      obtain ⟨hactive, hstart, _⟩ := Command.cancelled_shape hchange
      rw [Command.cancelled_of_active _ hactive hstart] at hchange
      exact ⟨hactive, (Except.ok.inj hchange).symm⟩

/-- The timing, found anew from the date that is stored, agrees with the state. -/
theorem Journey.ended_timing {date : Option Date} {done : Executed Subscription}
    {reading changing launching : List Action}
    (h : s.Journey as j (.cancel id date) x r done reading changing launching)
    (found : (s.steps changing).store.subscription? id = some y)
    (today : r.account.today? (s.steps launching).works.clock = some r.today) :
    (date.getD r.today ≤ r.today → done.timing = .immediate) ∧
      (r.today < date.getD r.today → done.timing = .deferred (date.getD r.today)) := by
  have htiming : EffectTiming.forAccount? [date.getD r.today] (s.steps launching).works.clock
      r.account.offset = some done.timing := by
    have ht := h.timing
    rw [(h.ended found).2] at ht
    exact ht
  constructor
  · intro hle
    exact Option.some.inj (htiming.symm.trans (EffectTiming.forAccount?_due today hle))
  · intro hlt
    exact Option.some.inj (htiming.symm.trans (EffectTiming.forAccount?_later today hlt))

section Whole

variable {settings : Config.Settings} {hash : CorrelationToken → UInt64} {now : Instant}
  {y₀ : Subscription} {past : List Action} {date : Option Date}
  (reached : (System.opened settings hash now).Leads s) (supplied : (s.steps as).Supplied)
  (stored : s.store.subscription? id = some y₀)

theorem clock_on_way (still : ∀ now, .setClock now ∉ as) (hpast : past <+: as) :
    (s.steps past).works.clock = s.works.clock :=
  clock_steps s fun now hn => still now (hpast.subset hn)

theorem supplied_on_way (supplied : (s.steps as).Supplied) (hpast : past <+: as) :
    (s.steps past).Supplied := by
  obtain ⟨rest, rfl⟩ := hpast
  rw [steps_append] at supplied
  exact supplied.of_steps

include reached supplied

/-- Whoever changes the subscription at any time has changed it before another command has ended
it. -/
theorem changed_apart {changing : List Action} (hchanging : changing ++ [.work j] <+: as)
    (hz : (s.steps (changing ++ [.work j])).store.subscription? id = some z)
    (hfinal : z.state ≠ .active) (ht : (s.steps as).Leads t) (hsupplied : t.Supplied)
    (hm : t.commands[k]? = some m) (hid : m.command.changes? = some id)
    (hy : m.stage.changed? = some y) (hkj : k ≠ j) :
    ∃ m', (s.steps changing).commands[k]? = some m' ∧ m'.command = m.command ∧
      m'.stage.changed? = some y := by
  have hstocked := (reached.trans (leads_steps s (changing ++ [.work j]))).stocked
    (.opened settings hash now) (supplied_on_way supplied hchanging)
  have hleads : (s.steps (changing ++ [.work j])).Leads t := by
    obtain ⟨rest, rfl⟩ := hchanging
    rw [steps_append] at ht
    exact (leads_steps _ rest).trans ht
  obtain ⟨m', hm', hc, hy'⟩ := changed_before hleads hstocked hsupplied hz hfinal hm hid hy
  rw [steps_concat] at hm'
  rcases changed_step hm' hy' with ⟨m'', hm'', hc', hy''⟩ | ⟨hk, _⟩
  · exact ⟨m'', hm'', hc'.trans hc, hy''⟩
  · cases hk
    exact absurd rfl hkj

/-- Where a cancellation has ended the subscription, no other one ever succeeds. -/
theorem cancelled_once {changing : List Action} (hchanging : changing ++ [.work j] <+: as)
    (found : (s.steps changing).store.subscription? id = some y) (hactive : y.state = .active)
    (hz : (s.steps (changing ++ [.work j])).store.subscription? id = some z)
    (hfinal : z.state ≠ .active) (ht : (s.steps as).Leads t) (hsupplied : t.Supplied)
    (hm : t.commands[k]? = some m) (hc : m.command = .cancel id date) {z' : Subscription}
    (hz' : m.stage.changed? = some z') : k = j := by
  by_contra hkj
  obtain ⟨m', hm', hc', hz'⟩ := changed_apart reached supplied hchanging hz hfinal ht hsupplied
    hm (by rw [hc]; rfl) hz' hkj
  obtain ⟨y', hy', hinactive⟩ := inactive_of_cancel (reached.trans (leads_steps s changing))
    (supplied_on_way supplied ((List.prefix_append _ _).trans hchanging)) hm' (hc'.trans hc) hz'
  rw [found] at hy'
  cases hy'
  exact hinactive hactive

include stored

/-- On the way the subscription is stored, and so is its account. -/
theorem found_on_way (hpast : past <+: as) : ∃ y a,
    (s.steps past).store.subscription? id = some y ∧
      (s.steps past).store.account? y.account = some a ∧ y₀.Becomes y := by
  have hsupplied := supplied_on_way supplied hpast
  have hleads := leads_steps s past
  have hstocked := reached.stocked (.opened settings hash now) (hleads.supplied hsupplied)
  obtain ⟨y, hy, hbecomes⟩ := hleads.becomes hstocked hsupplied stored
  have htended := (reached.trans hleads).tended (.opened settings hash now)
  obtain ⟨a, ha⟩ := (htended.orderly y (Store.Table.mem_of_find? hy)).account
  exact ⟨y, a, hy, ha, hbecomes⟩

/-- What a cancellation reads is the account of the subscription that it is to change, and that it
bills nothing to. -/
theorem read_on_way {reading changing : List Action} (hchanging : changing <+: as)
    (hreading : reading <+: changing) (hread : (Command.cancel id date).read s.catalog
      (s.steps reading).store = .ok (r.account, r.amount)) :
    ∃ y, (s.steps changing).store.subscription? id = some y ∧
      (s.steps reading).store.account? y.account = some r.account ∧ r.amount = .zero := by
  obtain ⟨z, a, hz, ha, hbefore⟩ := found_on_way reached supplied stored (hreading.trans hchanging)
  obtain ⟨y, _, hy, _, hafter⟩ := found_on_way reached supplied stored hchanging
  rw [Command.read_cancel date hz ha] at hread
  obtain ⟨haccount, hamount⟩ := Prod.mk.inj (Except.ok.inj hread)
  refine ⟨y, hy, ?_, hamount.symm⟩
  rw [hafter.account, ← hbefore.account, ha, haccount]

/-- What comes of a cancellation that has taken every stage. -/
theorem Journey.cancelled {done : Executed Subscription} {reading changing launching : List Action}
    (h : s.Journey as j (.cancel id date) x r done reading changing launching)
    (submitted : s.commands[j]? = some ⟨.cancel id date, x, .reading⟩)
    (still : ∀ now, .setClock now ∉ as)
    (found : (s.steps changing).store.subscription? id = some y) :
    s.Cancelled as j id (date.getD r.today) x done r y changing := by
  have hlaunching : launching <+: as := (List.prefix_append _ _).trans h.launched
  have hchanging : changing ++ [.work j] <+: as := h.changes_first.trans hlaunching
  have hbefore : changing <+: as := (List.prefix_append _ _).trans hchanging
  have hreading : reading <+: changing := (List.prefix_append _ _).trans h.reads_first
  have htoday : r.account.today? (s.steps launching).works.clock = some r.today := by
    rw [clock_on_way still hlaunching, ← clock_on_way still (hreading.trans hbefore)]
    exact h.today
  obtain ⟨_, _, _, hamount⟩ := read_on_way reached supplied stored hbefore hreading h.read
  obtain ⟨value, timing⟩ := done
  obtain ⟨hactive, (hvalue : value = _)⟩ := h.ended found
  obtain ⟨(hdue : _ → timing = _), (hlater : _ → timing = _)⟩ := h.ended_timing found htoday
  have hruns := h.launches
  have hid : value.id = id := by
    rw [hvalue]
    show y.id = id
    exact Store.id_of_subscription? found
  have hstored : (s.steps (changing ++ [.work j])).store.subscription? id = some value := by
    rw [h.store, Store.subscription?_insertSubscription, if_pos hid]
  have hfinal : value.state ≠ .active := by
    rw [hvalue]
    show (if r.today < date.getD r.today then _ else _) ≠ SubscriptionState.active
    split <;> exact nofun
  simp only [Command.order, Command.transition, hid, hamount] at hruns
  exact {
    stored := hstored
    due := by
      intro hle
      have hnot : ¬ r.today < date.getD r.today := Int.not_lt.mpr hle
      cases hdue hle
      rw [if_neg hnot] at hvalue
      exact ⟨by rw [hvalue]; rfl, hruns⟩
    later := by
      intro hlt
      cases hlater hlt
      rw [if_pos hlt] at hvalue
      exact ⟨by rw [hvalue]; rfl, hruns⟩
    once := by
      intro t ht hsup i m d e run hm hc hst
      exact cancelled_once reached supplied hchanging found hactive hstored hfinal ht hsup hm hc
        (by rw [hst]; rfl)
    final := by
      intro t ht hsup k m plan d e run hm hc hst
      have hkj : k ≠ j := by
        rintro rfl
        obtain ⟨stage, hstage⟩ := ((leads_steps s as).trans ht).command submitted
        rw [hm] at hstage
        cases hstage
        cases hc
      obtain ⟨m', hm', _, hz⟩ := changed_apart reached supplied hchanging hstored hfinal ht hsup
        hm (by rw [hc]; rfl) (by rw [hst]; rfl) hkj
      exact ⟨m', hm', hz⟩ }

/-- What a cancellation is answered follows from the subscription that it finds. -/
theorem cancellation_of_answer (x : Completion.CallContext)
    (result : Except DomainError (Executed Subscription)) {reading changing : List Action}
    (hreading : reading ++ [.work j] <+: changing)
    (hchanging : changing ++ [.work j] <+: as)
    (hread : (Command.cancel id date).read s.catalog (s.steps reading).store =
      .ok (r.account, r.amount))
    (htoday : r.account.today? s.works.clock = some r.today)
    (hanswer : ((Command.cancel id date).update r (s.steps changing).works).1 =
      result.map (·.value))
    (refused : ∀ e, result = .error e →
      (s.steps (changing ++ [.work j])).store = (s.steps changing).store ∧ s.launches j as = [])
    (succeeded : ∀ y done, (s.steps changing).store.subscription? id = some y →
      result = .ok done → s.Cancelled as j id (date.getD r.today) x done r y changing) :
    ∃ y, s.Cancellation as j id date x result r y reading changing := by
  obtain ⟨y, hy, haccount, _⟩ := read_on_way reached supplied stored
    ((List.prefix_append _ _).trans hchanging) ((List.prefix_append _ _).trans hreading) hread
  rw [Command.update_cancel r date hy] at hanswer
  obtain ⟨hinactive, hearly, haccepted⟩ := Command.cancelled_answer hanswer.symm
  rw [Store.id_of_subscription? hy] at hinactive
  exact ⟨y, ⟨hreading, hchanging⟩, haccount, htoday, hy, hinactive, hearly, haccepted, refused,
    fun done hdone => succeeded y done hy hdone⟩

section Still

variable (submitted : s.commands[j]? = some ⟨.cancel id date, x, .reading⟩)
  (still : ∀ now, .setClock now ∉ as)
include submitted still

/-- A cancellation crashes only before it has done anything. -/
theorem today?_of_crashed
    (crashed : (s.steps as).commands[j]? = some ⟨.cancel id date, x, .crashed⟩) :
    ∃ reading y a, reading ++ [.work j] <+: as ∧
      (s.steps reading).store.subscription? id = some y ∧
        (s.steps reading).store.account? y.account = some a ∧ a.today? s.works.clock = none := by
  obtain ⟨past, st, hpast, hst, _, hne, hstep⟩ := exists_stage submitted crashed nofun
  have hbefore : past <+: as := (List.prefix_append _ _).trans hpast
  rcases Command.of_step_crashed hstep hne with ⟨_, a, amount, hread, hnone⟩ | ⟨r, z, rfl, hnone⟩
  · obtain ⟨y, b, hy, hb, _⟩ := found_on_way reached supplied stored hbefore
    have hread' : (Command.cancel id date).read s.catalog (s.steps past).store = .ok (a, amount) :=
      hread
    rw [Command.read_cancel date hy hb] at hread'
    cases hread'
    rw [clock_on_way still hbefore] at hnone
    exact ⟨past, y, a, hpast, hy, hb, hnone⟩
  · -- A local date that was in range is found again.
    obtain ⟨reading, changing, hreads, hchanges, _, htoday, _⟩ := exists_change submitted hst
    have hreading : reading <+: as := (List.prefix_append _ _).trans
      (hreads.trans ((List.prefix_append _ _).trans (hchanges.trans hbefore)))
    rw [clock_on_way still hreading, ← clock_on_way still hbefore] at htoday
    obtain ⟨timing, htiming⟩ := Command.timing?_isSome (c := .cancel id date) (z := z) htoday
    rw [htiming] at hnone
    cases hnone

theorem cancellation_of_refused {e : DomainError} {run : Option Nat}
    (refused : (s.steps as).commands[j]? = some ⟨.cancel id date, x, .done (.error e) run⟩) :
    ∃ r y reading changing, s.Cancellation as j id date x (.error e) r y reading changing := by
  obtain ⟨rfl, hrefusal⟩ := exists_refusal submitted refused
  rcases hrefusal with ⟨reading, hreading, hread⟩ |
    ⟨r, reading, changing, hreading, hchanging, hread, htoday, hupdate⟩
  · -- What it reads is there.
    obtain ⟨y, a, hy, ha, _⟩ := found_on_way reached supplied stored
      ((List.prefix_append _ _).trans hreading)
    rw [Command.read_cancel date hy ha] at hread
    cases hread
  · have hbefore : changing <+: as := (List.prefix_append _ _).trans hchanging
    rw [clock_on_way still (((List.prefix_append _ _).trans hreading).trans hbefore)] at htoday
    have hanswer : ((Command.cancel id date).update r (s.steps changing).works).1 = .error e := by
      rw [hupdate]
    obtain ⟨y, h⟩ := cancellation_of_answer reached supplied stored x (.error e) hreading hchanging
      hread htoday hanswer
      (fun _ _ => ⟨congrArg (·.store) (Command.update_error hupdate),
        launches_of_no_run submitted refused rfl⟩)
      (fun _ _ _ hd => nomatch hd)
    exact ⟨r, y, reading, changing, h⟩

theorem cancellation_of_succeeded {done : Executed Subscription} {run : Option Nat}
    (succeeded : (s.steps as).commands[j]? = some ⟨.cancel id date, x, .done (.ok done) run⟩) :
    ∃ r y reading changing, s.Cancellation as j id date x (.ok done) r y reading changing := by
  obtain ⟨r, reading, changing, launching, h⟩ := exists_journey submitted succeeded
  have hchanging : changing ++ [.work j] <+: as :=
    h.changes_first.trans ((List.prefix_append _ _).trans h.launched)
  have hreading : reading <+: as := (List.prefix_append _ _).trans
    (h.reads_first.trans ((List.prefix_append _ _).trans hchanging))
  have htoday := h.today
  rw [clock_on_way still hreading] at htoday
  have hanswer :
      ((Command.cancel id date).update r (s.steps changing).works).1 = .ok done.value := by
    cases h.makes with
    | cancelled hfound hchange => rw [Command.update_cancel r date hfound, hchange]
  obtain ⟨y, h⟩ := cancellation_of_answer reached supplied stored x (.ok done) h.reads_first
    hchanging h.read htoday hanswer (fun _ he => nomatch he)
    (fun y _ hy hd => by
      cases hd
      exact h.cancelled reached supplied stored submitted still hy)
  exact ⟨r, y, reading, changing, h⟩

end Still

end Whole

/-- Any number of commands may be under way on a subscription, in any order of their stages. While
the clock stands still, a cancellation that comes to its end is refused if the subscription is not
active by the time it is to be changed, or if it would end before its start. Otherwise it is made,
at once or for a later date: it is the only one that ever is, and no plan is changed after it. It
fails in no other way, unless the local date is out of range before it has done anything. -/
theorem cancellation_once (settings : Config.Settings) (hash : CorrelationToken → UInt64)
    (now : Instant) (reached : (System.opened settings hash now).Leads s)
    (supplied : (s.steps as).Supplied) {y₀ : Subscription}
    (stored : s.store.subscription? id = some y₀) {date : Option Date}
    (submitted : s.commands[j]? = some ⟨.cancel id date, x, .reading⟩)
    (still : ∀ now, .setClock now ∉ as) {stage : Stage}
    (ended : (s.steps as).commands[j]? = some ⟨.cancel id date, x, stage⟩)
    (atEnd : stage = .crashed ∨ ∃ result run, stage = .done result run) :
    (stage = .crashed ∧ s.launches j as = [] ∧ ∃ reading y a, reading ++ [.work j] <+: as ∧
        (s.steps reading).store.subscription? id = some y ∧
          (s.steps reading).store.account? y.account = some a ∧ a.today? s.works.clock = none) ∨
      ∃ result run r y reading changing, stage = .done result run ∧
        s.Cancellation as j id date x result r y reading changing := by
  rcases atEnd with rfl | ⟨result, run, rfl⟩
  · exact Or.inl ⟨rfl, launches_of_no_run submitted ended rfl,
      today?_of_crashed reached supplied stored submitted still ended⟩
  · cases result with
    | error e =>
        obtain ⟨r, y, reading, changing, h⟩ :=
          cancellation_of_refused reached supplied stored submitted still ended
        exact Or.inr ⟨_, run, r, y, reading, changing, rfl, h⟩
    | ok done =>
        obtain ⟨r, y, reading, changing, h⟩ :=
          cancellation_of_succeeded reached supplied stored submitted still ended
        exact Or.inr ⟨_, run, r, y, reading, changing, rfl, h⟩

/-! ### A contested subscription -/

/-- A call about the account of the plan that was ordered. -/
def about (token : Nat) : Completion.CallContext := ⟨.numbered token, some (.numbered 0), .none⟩

/-- Two cancellations of the plan that was ordered are asked for, and a change of it. -/
def contested : System :=
  ordered.steps
    [.submit (about 8) false 0 (.cancel (.numbered 1) none),
      .submit (about 9) false 0 (.cancel (.numbered 1) (some someDay)),
      .submit (about 10) false 0 (.changePlan (.numbered 1) "basic-monthly" (some someDay))]

/-- All three read before any of them changes the plan. The change is made first, and the first
cancellation ends the plan before the second. -/
def race : List Action :=
  [.start 1, .start 2, .start 3, .enlist 1, .enlist 2, .enlist 3, .work 1, .work 2, .work 3,
    .work 3, .work 1, .work 2, .work 1, .work 1, .work 3, .work 3]

/-- The change is pending when the first cancellation discards it, and the second is refused. -/
theorem contested_once : ∃ done r y reading changing,
    contested.Cancellation race 1 (.numbered 1) none (about 8) (.ok (.immediate done)) r y reading
        changing ∧
      (∃ m e, (contested.steps race).commands[2]? = some m ∧
        m.stage = .done (.error (.invariant e)) none) ∧
      ∃ m e, (contested.steps race).commands[3]? = some m ∧ m.stage = .done (.ok e) none := by
  have hstill : ∀ now, .setClock now ∉ race := fun now h => by simp [race] at h
  have hsupplied : (contested.steps race).Supplied := by
    show (contested.steps race).works.books.fresh < Id.supply
    decide
  obtain ⟨x, hx⟩ : ∃ x, contested.store.subscription? (.numbered 1) = some x := ⟨_, rfl⟩
  obtain ⟨done, hdone⟩ : ∃ done, (contested.steps race).commands[1]? =
      some ⟨.cancel (.numbered 1) none, about 8, .done (.ok (.immediate done)) (some 1)⟩ :=
    ⟨_, rfl⟩
  have hover : ∃ result run, Stage.done (.ok (.immediate done)) (some 1) = .done result run :=
    ⟨_, _, rfl⟩
  rcases cancellation_once .default (fun _ => 0) .epoch
      (ordered_reached.trans (leads_steps ordered _)) hsupplied hx rfl hstill hdone (Or.inr hover)
    with ⟨hcrashed, _⟩ | ⟨result, run, r, y, reading, changing, hstage, h⟩
  · cases hcrashed
  · cases hstage
    exact ⟨done, r, y, reading, changing, h, ⟨_, _, rfl, rfl⟩, _, _, rfl, rfl⟩

end System

end Service

end Billing
