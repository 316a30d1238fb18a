import Billing.Proofs.Service.Records
import Billing.Proofs.Table
import Billing.Service.Schedule

/-!
# Commands as a whole

A command that is submitted goes through all its stages before anything else happens. It is refused
and leaves all records as they were, or it is carried out: one subscription is put, one entry is
added to the audit log, and one billing run is started if it takes effect at once. Which of the two
it was can be told from its call ever after.
-/

namespace Billing

theorem Store.insertSubscription_of_found {s : Store} {id : SubscriptionId} {x : Subscription}
    (h : s.subscription? id = some x) : s.insertSubscription x = s := by
  unfold insertSubscription
  rw [Table.put_of_find? h]

open Completion (CallContext)

namespace Service

open Pipeline (Works)

namespace Command

variable {c : Command} {x : CallContext} {catalog : Catalog} {w v : Works} {r : Reading}
  {y z : Subscription}

/-! ## What a command does -/

/-- The subscription that a command makes, given what it has read. -/
inductive Makes (r : Reading) (w : Works) : Command → Subscription → Prop where
  | created {account : AccountId} {plan : String} :
      Makes r w (.create account plan) (newSubscription r plan w.books.fresh w.clock)
  | changed {id : SubscriptionId} {plan : String} {date : Option Date} {y z : Subscription}
      (found : w.store.subscription? id = some y)
      (change : (changedPlan plan (date.getD r.today) r.today y).1 = .ok z) :
      Makes r w (.changePlan id plan date) z
  | cancelled {id : SubscriptionId} {date : Option Date} {y z : Subscription}
      (found : w.store.subscription? id = some y)
      (change : (cancelled (date.getD r.today) r.today y).1 = .ok z) :
      Makes r w (.cancel id date) z

/-- A command is carried out, once: it puts one subscription, adds one entry to the audit log, and
starts one billing run if it takes effect at once. -/
structure CarriedOut (c : Command) (x : CallContext) (catalog : Catalog) (w : Works) (r : Reading)
    (done : Executed Subscription) (v : Works) : Prop where
  read : c.read catalog w.store = .ok (r.account, r.amount)
  today : r.account.today? w.clock = some r.today
  makes : Makes r w c done.value
  timing : c.timing? r done.value w.clock = some done.timing
  store : v.store = (w.store.insertSubscription done.value).recordAudit
    (.ofContext x r.account.id c.action w.clock)
  runs : v.runs = w.runs ++ if done.timing = .immediate then
    [⟨c.order x.token r done.value, .queued, w.time⟩] else []

section Careful

variable {s t : Store} {id : SubscriptionId}
  {change : Subscription → Except DomainError Subscription × Subscription} (hc : Careful change)
include hc

theorem updateSubscription_error {e : DomainError}
    (h : s.updateSubscription id change = (.error e, t)) : t = s := by
  unfold Store.updateSubscription at h
  split at h
  · cases h
    rfl
  · rename_i y hy
    obtain ⟨he, rfl⟩ := Prod.mk.inj h
    rw [hc.refused he]
    exact Store.insertSubscription_of_found (store_subscription_ok hy)

theorem updateSubscription_ok (h : s.updateSubscription id change = (.ok z, t)) :
    ∃ y, s.subscription? id = some y ∧ (change y).1 = .ok z ∧ t = s.insertSubscription z := by
  unfold Store.updateSubscription at h
  split at h
  · cases h
  · rename_i y hy
    obtain ⟨hz, rfl⟩ := Prod.mk.inj h
    exact ⟨y, store_subscription_ok hy, hz, by rw [(hc.done hz).1]⟩

end Careful

theorem update_error {e : DomainError} (h : c.update r w = (.error e, v)) : v = w := by
  cases c with
  | create account plan => cases h
  | changePlan id plan date =>
      obtain ⟨he, rfl⟩ := Prod.mk.inj h
      have hcareful := careful_changedPlan plan (date.getD r.today) r.today
      exact congrArg w.withStore (updateSubscription_error hcareful (Prod.ext he rfl))
  | cancel id date =>
      obtain ⟨he, rfl⟩ := Prod.mk.inj h
      have hcareful := careful_cancelled (date.getD r.today) r.today
      exact congrArg w.withStore (updateSubscription_error hcareful (Prod.ext he rfl))

theorem update_ok (h : c.update r w = (.ok z, v)) :
    Makes r w c z ∧ v.store = w.store.insertSubscription z ∧ v.runs = w.runs ∧
      v.clock = w.clock ∧ v.time = w.time := by
  cases c with
  | create account plan =>
      cases h
      exact ⟨.created, rfl, rfl, rfl, rfl⟩
  | changePlan id plan date =>
      obtain ⟨he, rfl⟩ := Prod.mk.inj h
      obtain ⟨y, hy, hz, ht⟩ :=
        updateSubscription_ok (careful_changedPlan _ _ _) (Prod.ext he rfl)
      exact ⟨.changed hy hz, ht, rfl, rfl, rfl⟩
  | cancel id date =>
      obtain ⟨he, rfl⟩ := Prod.mk.inj h
      obtain ⟨y, hy, hz, ht⟩ := updateSubscription_ok (careful_cancelled _ _) (Prod.ext he rfl)
      exact ⟨.cancelled hy hz, ht, rfl, rfl, rfl⟩

/-- A command that has found the local date finds it again. -/
theorem timing?_isSome {now : Instant} {today : Date} (h : r.account.today? now = some today) :
    ∃ timing, c.timing? r z now = some timing := by
  have hdates : ∀ dates, ∃ timing,
      EffectTiming.forAccount? dates now r.account.offset = some timing := by
    intro dates
    unfold Account.today? at h
    exact ⟨_, by rw [EffectTiming.forAccount?, h]; rfl⟩
  cases c with
  | create account plan => exact ⟨_, rfl⟩
  | changePlan id plan date =>
      simp only [timing?]
      split
      · exact ⟨_, rfl⟩
      · exact hdates _
  | cancel id date => exact hdates _

theorem step_launching (x : CallContext) (catalog : Catalog) {timing : EffectTiming}
    (h : c.timing? r z w.clock = some timing) :
    ∃ run v, c.step x catalog w (.launching r z) = (.done (.ok ⟨z, timing⟩) run, v) ∧
      v.store = w.store ∧ v.runs = w.runs ++ if timing = .immediate then
        [⟨c.order x.token r z, .queued, w.time⟩] else [] := by
  cases timing with
  | immediate =>
      simp only [step, h]
      exact ⟨_, _, rfl, rfl, rfl⟩
  | deferred effective =>
      simp only [step, h]
      exact ⟨_, _, rfl, rfl, (List.append_nil _).symm⟩

/-- A command that has changed its subscription is carried out. -/
theorem run_of_update {u : Works} (hread : c.read catalog w.store = .ok (r.account, r.amount))
    (htoday : r.account.today? w.clock = some r.today) (hupdate : c.update r w = (.ok z, u)) :
    ∃ run done v, c.run x catalog w = (.done (.ok done) run, v) ∧
      c.CarriedOut x catalog w r done v := by
  obtain ⟨hmakes, hstore, hruns, hclock, htime⟩ := update_ok hupdate
  obtain ⟨timing, htiming⟩ := timing?_isSome (c := c) (z := z) htoday
  -- The works after the entry in the audit log.
  generalize hu : audit u x r.account.id c.action = u'
  have hstore' : u'.store = u.store.recordAudit
    (.ofContext x r.account.id c.action u.clock) := by rw [← hu]; rfl
  have hruns' : u'.runs = w.runs := by rw [← hu, ← hruns]; rfl
  have htime' : u'.time = w.time := by rw [← hu, ← htime]; rfl
  have hclock' : u'.clock = w.clock := by rw [← hu, ← hclock]; rfl
  obtain ⟨run, v, hlaunch, hv, hstarted⟩ := step_launching (c := c) (w := u') x catalog
    (hclock'.symm ▸ htiming)
  refine ⟨run, ⟨z, timing⟩, v, ?_, hread, htoday, hmakes, htiming, ?_, ?_⟩
  · obtain ⟨account, amount, today⟩ := r
    simp only [Command.run, step.eq_1, step.eq_2, step.eq_3, hread, htoday, hupdate, hu]
    exact hlaunch
  · rw [hv, hstore', hstore, hclock]
  · rw [hstarted, hruns', htime']

/-- A command that goes through all its stages is refused, crashes, or is carried out. -/
inductive Went (c : Command) (x : CallContext) (catalog : Catalog) (w : Works) :
    Stage → Works → Prop where
  | refused {e : DomainError} : Went c x catalog w (.done (.error e) none) w
  | crashed : Went c x catalog w .crashed w
  | carriedOut {r : Reading} {done : Executed Subscription} {run : Option Nat} {v : Works}
      (h : c.CarriedOut x catalog w r done v) : Went c x catalog w (.done (.ok done) run) v

theorem run_went (c : Command) (x : CallContext) (catalog : Catalog) (w : Works) :
    c.Went x catalog w (c.run x catalog w).1 (c.run x catalog w).2 := by
  cases hread : c.read catalog w.store with
  | error e =>
      have hrun : c.run x catalog w = (.done (.error e) none, w) := by
        simp only [run, step, hread]
      rw [hrun]
      exact .refused
  | ok read =>
      obtain ⟨a, amount⟩ := read
      cases htoday : a.today? w.clock with
      | none =>
          have hrun : c.run x catalog w = (.crashed, w) := by
            simp only [run, step, hread, htoday]
          rw [hrun]
          exact .crashed
      | some today =>
          cases hupdate : c.update ⟨a, amount, today⟩ w with
          | mk answer u =>
              cases answer with
              | error e =>
                  have hrun : c.run x catalog w = (.done (.error e) none, u) := by
                    simp only [run, step, hread, htoday, hupdate]
                  rw [hrun, update_error hupdate]
                  exact .refused
              | ok z =>
                  obtain ⟨run, done, v, hrun, hout⟩ := run_of_update (r := ⟨a, amount, today⟩)
                    hread htoday hupdate
                  rw [hrun]
                  exact .carriedOut hout

end Command

end Service

/-! ## Calls that have come to an end -/

namespace Completion

variable {α : Type}

/-- The command of the call was carried out, and the call waits or has come to its end. -/
def Phase.Accepted : Phase α → Prop
  | .waiting .. => True
  | .ended (.answered (.ok _)) _ => True
  | .ended .dropped _ => True
  | _ => False

/-- The call has come to its end without an outcome. -/
def Phase.Refused : Phase α → Prop
  | .ended (.answered (.error _)) _ => True
  | .ended .dropped _ => True
  | _ => False

variable {c : Call α} {d : Desk α} {i now maxWait : Nat} {m : Move α} {p : Phase α} {r : Registry}

theorem Phase.Accepted.after (h : c.phase.Accepted) (ha : c.After d i m p) : p.Accepted := by
  cases ha with
  | same => exact h
  | failed hp =>
      rcases hp with hp | ⟨_, hp⟩
      · rw [hp] at h
        cases h
      · rw [hp] at h
        cases h
  | answered => trivial
  | dropped => trivial
  | _ hp =>
      rw [hp] at h
      cases h

theorem Phase.Refused.after (h : c.phase.Refused) (ha : c.After d i m p) : p.Refused := by
  cases ha with
  | same => exact h
  | failed => trivial
  | refused => trivial
  | dropped => trivial
  | _ hp =>
      rw [hp] at h
      cases h

theorem Call.accepted_poll {w : Waiter} {value : α} {deadline : Nat}
    (h : c.phase = .waiting w value deadline) : (c.poll r now).1.phase.Accepted := by
  rcases poll_waiting r now h with ⟨he, _⟩ | ⟨o, ho, _⟩
  · rw [he, h]
    trivial
  · rw [ho]
    trivial

theorem Call.accepted_conclude {w : Option Waiter} (h : c.phase = .running w) (x : Executed α) :
    (c.conclude r now maxWait (.ok x)).1.phase.Accepted := by
  unfold conclude
  cases w with
  | none =>
      simp only [h]
      trivial
  | some w =>
      simp only [h]
      split
      · trivial
      · exact accepted_poll rfl

theorem Call.refused_conclude {w : Option Waiter} (h : c.phase = .running w) (e : DomainError) :
    (c.conclude r now maxWait (.error e)).1.phase.Refused := by
  unfold conclude
  simp only [h]
  trivial

end Completion

/-! ## Submission -/

namespace Service.System

open Completion (Call Desk Phase)

variable {s t : System} {i : Nat} {m : Submitted} {b : Call Subscription}

/-- A command and its call, as they stand. -/
structure Stands (t : System) (i : Nat) (m : Submitted) (b : Call Subscription) : Prop where
  command : t.commands[i]? = some m
  call : t.desk.calls[i]? = some b

theorem submit_stands (h : s.desk.calls.length = s.commands.length) (x : CallContext)
    (completing : Bool) (timeout : Nat) (c : Command) :
    ∃ b, (s.step (.submit x completing timeout c)).Stands s.commands.length ⟨c, x, .reading⟩ b ∧
      b.phase = .arrived := by
  have hcommand : (s.commands ++ [Submitted.mk c x .reading])[s.commands.length]? =
      some ⟨c, x, .reading⟩ := getElem?_concat_eq_some_iff.mpr (Or.inr ⟨rfl, rfl⟩)
  have hcall : (s.desk.calls ++ [Call.mk x completing timeout false .arrived])[s.commands.length]? =
      some ⟨x, completing, timeout, false, .arrived⟩ :=
    getElem?_concat_eq_some_iff.mpr (Or.inr ⟨h.symm, rfl⟩)
  simp only [step]
  split
  · refine ⟨⟨x, completing, timeout, true, .arrived⟩, ⟨hcommand, ?_⟩, rfl⟩
    refine Desk.calls_onCall.trans ?_
    rw [if_pos rfl]
    exact congrArg (Option.map _) hcall
  · exact ⟨_, ⟨hcommand, hcall⟩, rfl⟩

/-- An action at the desk touches neither the works nor the catalog. -/
def Apart (s t : System) : Prop := t.works = s.works ∧ t.catalog = s.catalog

theorem Apart.trans {u : System} (h : s.Apart t) (k : t.Apart u) : s.Apart u :=
  ⟨k.1.trans h.1, k.2.trans h.2⟩

theorem apart_submit (s : System) (x : CallContext) (completing : Bool) (timeout : Nat)
    (c : Command) : s.Apart (s.step (.submit x completing timeout c)) := by
  simp only [step]
  split <;> exact ⟨rfl, rfl⟩

theorem apart_start (s : System) (i : Nat) : s.Apart (s.step (.start i)) := by
  simp only [step]
  split <;> exact ⟨rfl, rfl⟩

theorem apart_enlist (s : System) (i : Nat) : s.Apart (s.step (.enlist i)) := ⟨rfl, rfl⟩

theorem apart_conclude (s : System) (i : Nat) : s.Apart (s.step (.conclude i)) := by
  simp only [step]
  split
  · split <;> exact ⟨rfl, rfl⟩
  · exact ⟨rfl, rfl⟩

/-- A call that has started and registered lets its command run, or it has come to its end. -/
def Underway (p : Phase Subscription) : Prop := p.Refused ∨ ∃ w, p = .running w

theorem Stands.start (h : t.Stands i m b) (hp : b.phase = .arrived) :
    ∃ b', (t.step (.start i)).Stands i m b' ∧
      (Underway b'.phase ∨ ∃ tags, b'.phase = .noted tags) := by
  simp only [step, h.command]
  refine ⟨(b.start t.desk.registry t.desk.now (t.tagsFor m.context)).1, ⟨h.command, ?_⟩, ?_⟩
  · refine Desk.calls_onCall.trans ?_
    rw [if_pos rfl, h.call]
    rfl
  · simp only [Call.start, hp]
    split
    · split
      · exact Or.inl (Or.inl trivial)
      · split
        · exact Or.inl (Or.inl trivial)
        · exact Or.inr ⟨_, rfl⟩
    · exact Or.inl (Or.inr ⟨none, rfl⟩)

theorem Stands.enlist (h : t.Stands i m b)
    (hp : Underway b.phase ∨ ∃ tags, b.phase = .noted tags) :
    ∃ b', (t.step (.enlist i)).Stands i m b' ∧ Underway b'.phase := by
  refine ⟨(b.enlist t.desk.registry t.desk.now).1, ⟨h.command, ?_⟩, ?_⟩
  · refine Desk.calls_onCall.trans ?_
    rw [if_pos rfl, h.call]
    rfl
  · rcases hp with hp | ⟨tags, hp⟩
    · have hsame : b.enlist t.desk.registry t.desk.now = (b, t.desk.registry) := by
        unfold Call.enlist
        split
        · rename_i tags hn
          rw [hn] at hp
          rcases hp with hp | ⟨w, hp⟩
          · cases hp
          · cases hp
        · rfl
      rw [hsame]
      exact hp
    · simp only [Call.enlist, hp]
      split
      · exact Or.inl trivial
      · exact Or.inr ⟨_, rfl⟩

theorem Stands.work_running (h : t.Stands i m b) {w : Option Completion.Waiter}
    (hp : b.phase = .running w) :
    (t.step (.work i)).Stands i
        { m with stage := (m.command.step m.context t.catalog t.works m.stage).1 } b ∧
      (t.step (.work i)).works = (m.command.step m.context t.catalog t.works m.stage).2 ∧
      (t.step (.work i)).catalog = t.catalog := by
  have hruns : t.letsRun i = true := by
    simp only [letsRun, h.call, hp]
  have hstep : t.step (.work i) = { t with
      works := (m.command.step m.context t.catalog t.works m.stage).2
      commands := t.commands.set i
        { m with stage := (m.command.step m.context t.catalog t.works m.stage).1 } } := by
    simp only [step, h.command, hruns, if_true]
  rw [hstep]
  refine ⟨⟨?_, h.call⟩, rfl, rfl⟩
  exact (getElem?_set_eq_some_iff h.command).mpr (Or.inl ⟨rfl, rfl⟩)

theorem Stands.work_refused (h : t.Stands i m b) (hp : b.phase.Refused) :
    t.step (.work i) = t := by
  have hruns : t.letsRun i = false := by
    simp only [letsRun, h.call]
    split
    · rename_i hr
      rw [hr] at hp
      cases hp
    · rfl
  simp only [step, h.command, hruns, Bool.false_eq_true, if_false]

/-- A command whose call lets it run goes through all its stages. -/
theorem Stands.works (h : t.Stands i m b) {w : Option Completion.Waiter}
    (hp : b.phase = .running w) (hm : m.stage = .reading) :
    (t.steps [.work i, .work i, .work i, .work i]).Stands i
        { m with stage := (m.command.run m.context t.catalog t.works).1 } b ∧
      (t.steps [.work i, .work i, .work i, .work i]).works =
        (m.command.run m.context t.catalog t.works).2 := by
  obtain ⟨h₁, hw₁, hc₁⟩ := h.work_running hp
  obtain ⟨h₂, hw₂, hc₂⟩ := h₁.work_running hp
  obtain ⟨h₃, hw₃, hc₃⟩ := h₂.work_running hp
  obtain ⟨h₄, hw₄, _⟩ := h₃.work_running hp
  simp only [hc₃, hc₂, hc₁, hw₃, hw₂, hw₁, hm] at h₄ hw₄
  exact ⟨h₄, hw₄⟩

theorem Stands.conclude_ok (h : t.Stands i m b) {w : Option Completion.Waiter}
    (hp : b.phase = .running w) {done : Executed Subscription} {run : Option Nat}
    (hm : m.stage = .done (.ok done) run) :
    ∃ b', (t.step (.conclude i)).desk.calls[i]? = some b' ∧ b'.phase.Accepted := by
  refine ⟨(b.conclude t.desk.registry t.desk.now t.desk.maxWait (.ok done)).1, ?_,
    Call.accepted_conclude hp done⟩
  simp only [step, h.command, hm]
  refine Desk.calls_onCall.trans ?_
  rw [if_pos rfl, h.call]
  rfl

theorem Stands.conclude_error (h : t.Stands i m b) {w : Option Completion.Waiter}
    (hp : b.phase = .running w) {e : DomainError} {run : Option Nat}
    (hm : m.stage = .done (.error e) run) :
    ∃ b', (t.step (.conclude i)).desk.calls[i]? = some b' ∧ b'.phase.Refused := by
  refine ⟨(b.conclude t.desk.registry t.desk.now t.desk.maxWait (.error e)).1, ?_,
    Call.refused_conclude hp e⟩
  simp only [step, h.command, hm]
  refine Desk.calls_onCall.trans ?_
  rw [if_pos rfl, h.call]
  rfl

theorem Stands.conclude_crashed (h : t.Stands i m b) {w : Option Completion.Waiter}
    (hp : b.phase = .running w) (hm : m.stage = .crashed) :
    ∃ b', (t.step (.conclude i)).desk.calls[i]? = some b' ∧ b'.phase.Refused := by
  refine ⟨(b.drop t.desk.registry t.desk.now).1, ?_, ?_⟩
  · simp only [step, h.command, hm]
    refine Desk.calls_onCall.trans ?_
    rw [if_pos rfl, h.call]
    rfl
  · simp only [Call.drop, hp, Phase.isEnded]
    trivial

/-- What becomes of a command with its call: nothing but a refusal, or it is carried out. -/
inductive Submission (s : System) (i : Nat) (c : Command) (x : CallContext) (t : System) : Prop where
  | refused {b : Call Subscription} (works : t.works = s.works) (call : t.desk.calls[i]? = some b)
      (phase : b.phase.Refused) : Submission s i c x t
  | carriedOut {r : Reading} {done : Executed Subscription} {b : Call Subscription}
      (effect : c.CarriedOut x s.catalog s.works r done t.works)
      (call : t.desk.calls[i]? = some b) (phase : b.phase.Accepted) : Submission s i c x t

theorem Submission.of_apart {c : Command} {x : CallContext} {u : System} (h : t.Submission i c x u)
    (ha : s.Apart t) : s.Submission i c x u := by
  cases h with
  | refused hworks hcall hphase => exact .refused (hworks.trans ha.1) hcall hphase
  | carriedOut heffect hcall hphase =>
      rw [ha.1, ha.2] at heffect
      exact .carriedOut heffect hcall hphase

theorem Stands.idle (h : t.Stands i m b) (hp : b.phase.Refused) (hm : m.stage = .reading) :
    t.Submission i m.command m.context
      ((t.steps [.work i, .work i, .work i, .work i]).step (.conclude i)) := by
  have hidle := h.work_refused hp
  have hsteps : t.steps [.work i, .work i, .work i, .work i] = t := by
    simp only [steps, List.foldl_cons, List.foldl_nil, hidle]
  have hsame : t.step (.conclude i) = t := by
    simp only [step, h.command, hm]
  rw [hsteps, hsame]
  exact .refused rfl h.call hp

theorem Stands.finish (h : t.Stands i m b) {w : Option Completion.Waiter}
    (hp : b.phase = .running w) (hm : m.stage = .reading) :
    t.Submission i m.command m.context
      ((t.steps [.work i, .work i, .work i, .work i]).step (.conclude i)) := by
  obtain ⟨hdone, hafter⟩ := h.works hp hm
  have hlast := (apart_conclude (t.steps [.work i, .work i, .work i, .work i]) i).1
  rw [hafter] at hlast
  have hwent := m.command.run_went m.context t.catalog t.works
  revert hwent hdone hlast
  generalize m.command.run m.context t.catalog t.works = p
  obtain ⟨stage, v⟩ := p
  intro hdone hlast hwent
  cases hwent with
  | refused =>
      obtain ⟨b', hb', hp'⟩ := hdone.conclude_error hp rfl
      exact .refused hlast hb' hp'
  | crashed =>
      obtain ⟨b', hb', hp'⟩ := hdone.conclude_crashed hp rfl
      exact .refused hlast hb' hp'
  | carriedOut heffect =>
      obtain ⟨b', hb', hp'⟩ := hdone.conclude_ok hp rfl
      exact .carriedOut (hlast.symm ▸ heffect) hb' hp'

theorem submit_submission (h : s.desk.calls.length = s.commands.length) (x : CallContext)
    (completing : Bool) (timeout : Nat) (c : Command) :
    s.Submission s.commands.length c x (s.submit x completing timeout c).2 := by
  obtain ⟨b₁, h₁, hp₁⟩ := submit_stands h x completing timeout c
  obtain ⟨b₂, h₂, hp₂⟩ := h₁.start hp₁
  obtain ⟨b, hb, hp⟩ := h₂.enlist hp₂
  have hapart := ((apart_submit s x completing timeout c).trans
    (apart_start _ s.commands.length)).trans (apart_enlist _ s.commands.length)
  simp only [submit, steps, List.foldl_cons, List.foldl_nil]
  -- The state in which the command begins to run, if its call lets it.
  generalize ((s.step (.submit x completing timeout c)).step
    (.start s.commands.length)).step (.enlist s.commands.length) = t at hb hapart ⊢
  refine Submission.of_apart ?_ hapart
  rcases hp with hp | ⟨w, hp⟩
  · exact hb.idle hp rfl
  · exact hb.finish hp rfl

/-! ## Whatever comes later -/

/-- One state of the service leads to another, by any actions in any order and by plans to shut
down. -/
inductive Leads (s : System) : System → Prop where
  | refl : Leads s s
  | step {t : System} (h : Leads s t) (a : Action) : Leads s (t.step a)
  | closeAfter {t : System} (h : Leads s t) (delay : Nat) : Leads s (t.closeAfter delay)

variable {u : System} {as : List Action}

theorem Leads.trans (h : s.Leads t) (k : t.Leads u) : s.Leads u := by
  induction k with
  | refl => exact h
  | step _ a ih => exact ih.step a
  | closeAfter _ delay ih => exact ih.closeAfter delay

theorem leads_steps (s : System) (as : List Action) : s.Leads (s.steps as) := by
  induction as generalizing s with
  | nil => exact .refl
  | cons a as ih => exact (Leads.refl.step a).trans (ih (s.step a))

theorem leads_submit (s : System) (x : CallContext) (completing : Bool) (timeout : Nat)
    (c : Command) : s.Leads (s.submit x completing timeout c).2 := by
  simp only [submit]
  exact leads_steps s _

theorem Leads.sound (h : s.Leads t) (hs : s.Sound) : t.Sound := by
  induction h with
  | refl => exact hs
  | step _ a ih => exact ih.step a
  | closeAfter _ delay ih => exact ⟨ih.linked, ih.timed, ih.posted⟩

/-- What no move takes from the phase of a call nothing that comes later takes from it. -/
theorem Leads.phase {P : Phase Subscription → Prop} (h : s.Leads t)
    (hP : ∀ {c : Call Subscription} {d : Desk Subscription} {m p},
      P c.phase → c.After d i m p → P p)
    (hb : s.desk.calls[i]? = some b) (hp : P b.phase) :
    ∃ b', t.desk.calls[i]? = some b' ∧ P b'.phase := by
  induction h with
  | refl => exact ⟨b, hb, hp⟩
  | @step t _ a ih =>
      obtain ⟨b₁, hb₁, hp₁⟩ := ih
      obtain ⟨b₂, hb₂, _, _, hcase⟩ := (t.step_effect a).call hb₁
      refine ⟨b₂, hb₂, ?_⟩
      rcases hcase with ⟨hsame, _⟩ | ⟨m, _, _, hafter⟩
      · rw [hsame]
        exact hp₁
      · exact hP hp₁ hafter
  | closeAfter _ delay ih => exact ih

/-- Whatever comes later, a call that waits for an answer is answered with an outcome if at all. -/
theorem Leads.ending_of_accepted (h : s.Leads t) (hb : s.desk.calls[i]? = some b)
    (hp : b.phase.Accepted) {result : Completion.CallResult Subscription}
    (he : t.ending? i = some (.answered result)) : ∃ o, result = .ok o := by
  obtain ⟨b', hb', hp'⟩ := h.phase Phase.Accepted.after hb hp
  unfold ending? at he
  rw [hb'] at he
  cases hphase : b'.phase with
  | ended e time =>
      simp only [hphase, Option.some.injEq] at he
      subst he
      rw [hphase] at hp'
      cases result with
      | error e => cases hp'
      | ok o => exact ⟨o, rfl⟩
  | _ => simp [hphase] at he

theorem Leads.ending_of_refused (h : s.Leads t) (hb : s.desk.calls[i]? = some b)
    (hp : b.phase.Refused) {result : Completion.CallResult Subscription}
    (he : t.ending? i = some (.answered result)) : ∃ e, result = .error e := by
  obtain ⟨b', hb', hp'⟩ := h.phase Phase.Refused.after hb hp
  unfold ending? at he
  rw [hb'] at he
  cases hphase : b'.phase with
  | ended e time =>
      simp only [hphase, Option.some.injEq] at he
      subst he
      rw [hphase] at hp'
      cases result with
      | error e => exact ⟨e, rfl⟩
      | ok o => cases hp'
  | _ => simp [hphase] at he

end Service.System

end Billing
