import Billing.Proofs.Service.Journey

/-!
# Changes of plan

A change of plan is made on a date, or today. What becomes of the subscription, when the change is
said to take effect, and what is billed for it are decided one after another; here is how they agree.
-/

namespace Billing

theorem EffectTiming.forAccount?_later {now : Instant} {offset : Int} {today d : Date}
    (hnow : now.localDate? offset = some today) (hd : today < d) :
    forAccount? [d] now offset = some (.deferred d) := by
  simp [forAccount?, hnow, classify, hd, latest?]

namespace Service

open Pipeline (Order)

/-! ## What is decided -/

namespace Command

variable {id : SubscriptionId} {plan : String} {date : Option Date} {catalog : Catalog} {s : Store}
  {a : Account} {price : Amount} {r : Reading} {effective today : Date} {y z : Subscription}

theorem read_changePlan (h : (changePlan id plan date).read catalog s = .ok (a, price)) :
    ∃ y, s.subscription? id = some y ∧ s.account? y.account = some a ∧
      catalog.price? plan = some price := by
  obtain ⟨y, hy, h⟩ := bind_ok h
  obtain ⟨b, hb, h⟩ := bind_ok h
  obtain ⟨p, hp, h⟩ := bind_ok h
  cases h
  refine ⟨y, store_subscription_ok hy, store_account_ok hb, ?_⟩
  unfold Catalog.price at hp
  split at hp
  · cases hp
    assumption
  · cases hp

/-- A change that is not refused is made by its date; the current plan is only asked for again where
another change is pending. -/
theorem changedPlan_dated (h : (changedPlan plan effective today y).1 = .ok z) :
    (y.plan = plan → y.pendingChange ≠ none) ∧
      (effective ≤ today → z = { y with plan, pendingChange := none }) ∧
      (today < effective → z = { y with pendingChange := some ⟨plan, effective⟩ }) := by
  unfold changedPlan at h
  split at h
  · cases h
  · split at h
    · cases h
    · rename_i hother
      refine ⟨fun hp hn => hother ⟨hp, hn⟩, ?_⟩
      split at h
      · rename_i hlater
        cases h
        exact ⟨fun hle => absurd hlater (Int.not_lt.mpr hle), fun _ => rfl⟩
      · rename_i hdue
        cases h
        exact ⟨fun _ => rfl, fun hlater => absurd hlater hdue⟩

/-- The timing of a change is decided by the plan on which the subscription is by then. -/
theorem timing?_changePlan (id : SubscriptionId) (plan : String) (date : Option Date)
    (z : Subscription) {now : Instant} (htoday : r.account.today? now = some r.today) :
    (z.plan = plan → (changePlan id plan date).timing? r z now = some .immediate) ∧
      ∀ p, z.plan ≠ plan → z.pendingChange = some p → r.today < p.effective →
        (changePlan id plan date).timing? r z now = some (.deferred p.effective) := by
  refine ⟨fun hp => if_pos hp, fun p hp hpending hlater => ?_⟩
  rw [timing?, if_neg hp, hpending]
  exact EffectTiming.forAccount?_later htoday hlater

end Command

/-! ## A change among other actions -/

namespace System

variable {s : System} {as : List Action} {j : Nat} {id : SubscriptionId} {plan : String}
  {date : Option Date} {x : Completion.CallContext} {done : Executed Subscription}
  {run : Option Nat}

/-- What comes of a change of plan that succeeds, given what it has read and the subscription that it
finds. -/
structure PlanChanged (s : System) (as : List Action) (j : Nat) (id : SubscriptionId) (plan : String)
    (date : Option Date) (x : Completion.CallContext) (done : Executed Subscription) (r : Reading)
    (y : Subscription) (reading changing : List Action) : Prop where
  order : reading ++ [.work j] <+: changing ∧ changing ++ [.work j] <+: as
  account : ∃ z, (s.steps reading).store.subscription? id = some z ∧
    (s.steps reading).store.account? z.account = some r.account
  today : r.account.today? s.works.clock = some r.today
  price : s.catalog.price? plan = some r.amount
  found : (s.steps changing).store.subscription? id = some y ∧ y.state = .active
  stored : (s.steps (changing ++ [.work j])).store.subscription? id = some done.value
  /-- A change that is due is made and billed at once. -/
  due : date.getD r.today ≤ r.today →
    done = .immediate { y with plan, pendingChange := none } ∧
      s.launches j as = [⟨x.token, r.account.id, id, .change, r.amount⟩]
  /-- A later change is noted and nothing else, unless the plan is the current one. -/
  later : r.today < date.getD r.today → y.plan ≠ plan →
    done = .deferred { y with pendingChange := some ⟨plan, date.getD r.today⟩ }
        (date.getD r.today) ∧
      s.launches j as = []
  /-- A later change to the current plan takes the place of another that is pending. It is noted as
  well, but it is billed at once. -/
  back : r.today < date.getD r.today → y.plan = plan →
    y.pendingChange ≠ none ∧
      done = .immediate { y with pendingChange := some ⟨plan, date.getD r.today⟩ } ∧
        s.launches j as = [⟨x.token, r.account.id, id, .change, r.amount⟩]

/-- A change of plan that succeeds, while the clock stands still and whatever else happens, is made
by its date. If it is due, the subscription is on the plan with nothing pending, and one run bills
the price of the plan; if it is later, it is pending, the subscription stays on its plan, the change
is deferred to its date and no run is started. There is one exception: a later change to the current
plan, which takes the place of another pending one, is pending and yet said to be immediate, and a
run bills it. -/
theorem plan_change_exact (submitted : s.commands[j]? = some ⟨.changePlan id plan date, x, .reading⟩)
    (still : ∀ now, .setClock now ∉ as)
    (succeeded : (s.steps as).commands[j]? =
      some ⟨.changePlan id plan date, x, .done (.ok done) run⟩) :
    ∃ r y reading changing, s.PlanChanged as j id plan date x done r y reading changing := by
  obtain ⟨value, timing⟩ := done
  obtain ⟨r, reading, changing, launching, h⟩ := exists_journey submitted succeeded
  have hlaunching : launching <+: as := (List.prefix_append _ _).trans h.launched
  have hchanging : changing ++ [.work j] <+: as := h.changes_first.trans hlaunching
  have hreading : reading <+: as :=
    (List.prefix_append _ _).trans
      (h.reads_first.trans ((List.prefix_append _ _).trans hchanging))
  have hclock : ∀ {past}, past <+: as → (s.steps past).works.clock = s.works.clock :=
    fun hp => clock_steps s fun now hn => still now (hp.subset hn)
  have htoday : r.account.today? s.works.clock = some r.today := hclock hreading ▸ h.today
  obtain ⟨z, hz, hza, hprice⟩ := Command.read_changePlan h.read
  obtain ⟨y, hfound, hchange⟩ : ∃ y, (s.steps changing).store.subscription? id = some y ∧
      (Command.changedPlan plan (date.getD r.today) r.today y).1 = .ok value := by
    cases h.makes with
    | changed hfound hchange => exact ⟨_, hfound, hchange⟩
  obtain ⟨hagain, hdue, hlater⟩ := Command.changedPlan_dated hchange
  have hid : value.id = id := by
    rw [((Command.careful_changedPlan _ _ _).done hchange).2.1, Store.id_of_subscription? hfound]
  -- The timing as the code finds it, and the runs that go with it.
  have htiming := h.timing
  rw [hclock hlaunching] at htiming
  obtain ⟨himmediate, hdeferred⟩ := Command.timing?_changePlan id plan date value htoday
  have hruns := h.launches
  simp only [Command.order, Command.transition, hid] at htiming hruns
  have hnow : value.plan = plan →
      timing = .immediate ∧ s.launches j as = [⟨x.token, r.account.id, id, .change, r.amount⟩] := by
    intro hp
    rw [himmediate hp] at htiming
    cases htiming
    exact ⟨rfl, hruns⟩
  refine ⟨r, y, reading, changing, ?_⟩
  exact {
    order := ⟨h.reads_first, hchanging⟩
    account := ⟨z, hz, hza⟩
    today := htoday
    price := hprice
    found := ⟨hfound, (Command.changedPlan_shape hchange).1⟩
    stored := by
      rw [h.store, Store.subscription?_insertSubscription, if_pos hid]
    due := by
      intro hle
      obtain rfl := hdue hle
      obtain ⟨rfl, hruns⟩ := hnow rfl
      exact ⟨rfl, hruns⟩
    later := by
      intro hlt hp
      obtain rfl := hlater hlt
      rw [hdeferred _ hp rfl hlt] at htiming
      cases htiming
      exact ⟨rfl, hruns⟩
    back := by
      intro hlt hp
      obtain rfl := hlater hlt
      obtain ⟨rfl, hruns⟩ := hnow hp
      exact ⟨hagain hp, rfl, hruns⟩ }

/-! ### Changes to come -/

/-- A day still to come. -/
def someDay : Date := ⟨120, by decide⟩

/-- A change of the plan that was ordered, to be made on some day. -/
def rescheduled (plan : String) (date : Date) : System :=
  ordered.step
    (.submit ⟨.numbered 8, some (.numbered 0), .none⟩ false 0
      (.changePlan (.numbered 1) plan (some date)))

/-- The change goes through all its stages. -/
def carriedThrough : List Action :=
  [.start 1, .enlist 1, .work 1, .work 1, .work 1, .work 1]

theorem later_plan_deferred : ∃ z r y reading changing,
    (rescheduled "basic-monthly" someDay).PlanChanged carriedThrough 1 (.numbered 1)
        "basic-monthly" (some someDay) ⟨.numbered 8, some (.numbered 0), .none⟩
        ⟨z, .deferred someDay⟩ r y reading changing ∧
      (rescheduled "basic-monthly" someDay).launches 1 carriedThrough = [] := by
  have hstill : ∀ now, .setClock now ∉ carriedThrough := fun now h => by simp [carriedThrough] at h
  obtain ⟨z, hz⟩ : ∃ z, ((rescheduled "basic-monthly" someDay).steps carriedThrough).commands[1]? =
      some ⟨.changePlan (.numbered 1) "basic-monthly" (some someDay),
        ⟨.numbered 8, some (.numbered 0), .none⟩, .done (.ok ⟨z, .deferred someDay⟩) none⟩ :=
    ⟨_, rfl⟩
  obtain ⟨r, y, reading, changing, h⟩ := plan_change_exact rfl hstill hz
  exact ⟨z, r, y, reading, changing, h, rfl⟩

/-- A change of the plan that was ordered is pending, and the plan that was ordered is asked for
again, for a day that is still to come. -/
def resumed : System :=
  (((rescheduled "basic-monthly" someDay).steps carriedThrough).submit
    ⟨.numbered 9, some (.numbered 0), .none⟩ false 0
      (.changePlan (.numbered 1) "pro-monthly" (some ⟨240, by decide⟩))).2

/-- The change is said to be immediate, and its whole price is billed by a run of its own, though it
is only noted for a day to come. -/
theorem resumed_billed : ∃ m done,
    resumed.commands[2]? = some m ∧ m.stage = .done (.ok done) (some 1) ∧
      done.timing = .immediate ∧
      done.value.pendingChange = some ⟨"pro-monthly", ⟨240, by decide⟩⟩ ∧
      resumed.works.clock.localDate? 0 = some ⟨0, by decide⟩ ∧
      resumed.works.runs.map (·.order.amount.value) = [5000, 5000] := by
  refine ⟨_, _, rfl, rfl, rfl, rfl, ?_, ?_⟩
  · decide
  · decide

end System

end Service

end Billing
