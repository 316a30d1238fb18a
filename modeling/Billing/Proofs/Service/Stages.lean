import Billing.Proofs.Pipeline.Works
import Billing.Service.Command

/-!
# Stages of a command

A stage of a command makes one entry in the books, or it starts the run of the command. The account
that is billed is the one that the command is about.
-/

namespace Billing.Service

open Pipeline (Works Books)

/-! ## What a stage tells -/

/-- What a command has read, until it comes to its end. -/
def Stage.reading? : Stage → Option Reading
  | .updating r | .auditing r _ | .launching r _ => some r
  | _ => none

/-- The run that a command has started. -/
def Stage.run? : Stage → Option Nat
  | .done _ run => run
  | _ => none

namespace Command

variable {c : Command} {x : Completion.CallContext} {catalog : Catalog} {w : Works}

/-- The account that a command is about. -/
def account? (c : Command) (s : Store) : Option AccountId :=
  match c with
  | .create account _ => some account
  | .changePlan subscription _ _ => (s.subscription? subscription).map (·.account)
  | .cancel subscription _ => (s.subscription? subscription).map (·.account)

theorem store_account_ok {s : Store} {id : AccountId} {a : Account} (h : s.account id = .ok a) :
    s.account? id = some a := by
  unfold Store.account at h
  split at h
  · cases h
    assumption
  · cases h

theorem store_subscription_ok {s : Store} {id : SubscriptionId} {y : Subscription}
    (h : s.subscription id = .ok y) : s.subscription? id = some y := by
  unfold Store.subscription at h
  split at h
  · cases h
    assumption
  · cases h

theorem bind_ok {ε α β : Type} {e : Except ε α} {f : α → Except ε β} {b : β}
    (h : (e >>= f) = .ok b) : ∃ a, e = .ok a ∧ f a = .ok b := by
  cases e with
  | error e => cases h
  | ok a => exact ⟨a, rfl, h⟩

theorem read_ok {s : Store} {a : Account} {amount : Amount}
    (h : c.read catalog s = .ok (a, amount)) :
    c.account? s = some a.id ∧ s.account? a.id = some a := by
  cases c with
  | create account plan =>
      obtain ⟨b, hb, h⟩ := bind_ok h
      obtain ⟨price, _, h⟩ := bind_ok h
      cases h
      have hb := store_account_ok hb
      have hid := Store.id_of_account? hb
      exact ⟨by rw [account?, hid], by rw [hid, hb]⟩
  | changePlan subscription plan date =>
      obtain ⟨y, hy, h⟩ := bind_ok h
      obtain ⟨b, hb, h⟩ := bind_ok h
      obtain ⟨price, _, h⟩ := bind_ok h
      cases h
      have hb := store_account_ok hb
      have hid := Store.id_of_account? hb
      exact ⟨by rw [account?, store_subscription_ok hy, hid]; rfl, by rw [hid, hb]⟩
  | cancel subscription date =>
      obtain ⟨y, hy, h⟩ := bind_ok h
      obtain ⟨b, hb, h⟩ := bind_ok h
      cases h
      have hb := store_account_ok hb
      have hid := Store.id_of_account? hb
      exact ⟨by rw [account?, store_subscription_ok hy, hid]; rfl, by rw [hid, hb]⟩

/-! ## Changes of a subscription -/

/-- A change of a subscription is refused and leaves it as it was, or it is made and answers what it
leaves: the same subscription of the same account. -/
def Careful (change : Subscription → Except DomainError Subscription × Subscription) : Prop :=
  ∀ y, (∃ e, change y = (.error e, y)) ∨
    ∃ z, change y = made z ∧ z.id = y.id ∧ z.account = y.account

theorem careful_changedPlan (plan : String) (effective today : Date) :
    Careful (changedPlan plan effective today) := by
  intro y
  unfold changedPlan
  split
  · exact Or.inl ⟨_, rfl⟩
  · split
    · exact Or.inl ⟨_, rfl⟩
    · split <;> exact Or.inr ⟨_, rfl, rfl, rfl⟩

theorem careful_cancelled (stop today : Date) : Careful (cancelled stop today) := by
  intro y
  unfold cancelled
  split
  · exact Or.inl ⟨_, rfl⟩
  · split
    · exact Or.inl ⟨_, rfl⟩
    · exact Or.inr ⟨_, rfl, rfl, rfl⟩

namespace Careful

variable {change : Subscription → Except DomainError Subscription × Subscription}
  {y z : Subscription}

theorem refused {e : DomainError} (hc : Careful change) (h : (change y).1 = .error e) :
    (change y).2 = y := by
  rcases hc y with ⟨e', hy⟩ | ⟨z, hy, _⟩
  · rw [hy]
  · rw [hy] at h
    cases h

theorem done (hc : Careful change) (h : (change y).1 = .ok z) :
    (change y).2 = z ∧ z.id = y.id ∧ z.account = y.account := by
  rcases hc y with ⟨e, hy⟩ | ⟨z', hy, hid, haccount⟩
  · rw [hy] at h
    cases h
  · rw [hy] at h ⊢
    cases h
    exact ⟨rfl, hid, haccount⟩

end Careful

theorem updateSubscription_entry
    {change : Subscription → Except DomainError Subscription × Subscription}
    (hc : Careful change) (b : Books) (id : SubscriptionId) (retagged : Option AccountId) :
    b.Entry none retagged { b with store := (b.store.updateSubscription id change).2 } := by
  unfold Store.updateSubscription
  cases hy : b.store.subscription id with
  | error e => exact .nothing
  | ok y =>
      have hy := store_subscription_ok hy
      simp only
      cases hz : (change y).1 with
      | error e =>
          rw [hc.refused hz]
          exact .change hy rfl rfl
      | ok z =>
          obtain ⟨hleft, hid, ha⟩ := hc.done hz
          rw [hleft]
          exact .change hy hid ha

theorem update_entry (r : Reading) :
    ∃ b, (c.update r w).2 = { w with books := b } ∧ w.books.Entry none none b := by
  cases c with
  | create account plan => exact ⟨_, rfl, .opening rfl⟩
  | changePlan subscription plan date =>
      exact ⟨_, rfl, updateSubscription_entry (careful_changedPlan _ _ _) _ _ _⟩
  | cancel subscription date =>
      exact ⟨_, rfl, updateSubscription_entry (careful_cancelled _ _) _ _ _⟩

/-! ## One stage -/

/-- What a command that goes through one stage makes of its stage and of the works. -/
inductive Advance (c : Command) (x : Completion.CallContext) (w : Works) :
    Stage → Stage → Works → Prop where
  | entered {stage stage' : Stage} {b : Books} (entry : w.books.Entry none none b)
      (ended : ∀ result run, stage = .done result run → stage' = stage)
      (run : stage'.run? = stage.run?)
      (reading : ∀ r, stage'.reading? = some r → stage.reading? = some r ∨
        stage = .reading ∧ c.account? w.store = some r.account.id ∧
          w.store.account? r.account.id = some r.account) :
      Advance c x w stage stage' { w with books := b }
  | launched {r : Reading} {changed : Subscription} :
      Advance c x w (.launching r changed)
        (.done (.ok (.immediate changed)) (some w.runs.length))
        (w.start (c.order x.token r changed)).2

theorem Advance.entry {stage stage' : Stage} {v : Works} (h : c.Advance x w stage stage' v) :
    w.books.Entry none none v.books := by
  cases h with
  | entered he => exact he
  | launched => exact .nothing

theorem Advance.sound {stage stage' : Stage} {v : Works} (h : c.Advance x w stage stage' v)
    (hw : w.Sound) (hf : w.books.fresh < Id.supply) : v.Sound := by
  cases h with
  | entered he => exact hw.entry hf he rfl rfl
  | launched => exact hw.start _

theorem Advance.reserved {stage stage' : Stage} {v : Works} {n : Nat} {id : InvoiceId}
    (h : c.Advance x w stage stage' v) (hr : w.Reserved n id) : v.Reserved n id := by
  cases h with
  | entered he => exact hr.of_eq he.fresh_le rfl
  | launched => exact hr.start _

/-- What a command has read it had read before, or it is the account that it is about. -/
theorem Advance.reading {stage stage' : Stage} {v : Works} (h : c.Advance x w stage stage' v)
    {r : Reading} (hr : stage'.reading? = some r) :
    stage.reading? = some r ∨ stage = .reading ∧ c.account? w.store = some r.account.id ∧
      w.store.account? r.account.id = some r.account := by
  cases h with
  | entered _ _ _ hread => exact hread r hr
  | launched => cases hr

theorem Advance.published {stage stage' : Stage} {v : Works} (h : c.Advance x w stage stage' v) :
    v.published = w.published := by
  cases h <;> rfl

theorem Advance.time {stage stage' : Stage} {v : Works} (h : c.Advance x w stage stage' v) :
    v.time = w.time ∧ v.stepDelay = w.stepDelay := by
  cases h <;> exact ⟨rfl, rfl⟩

theorem Advance.of_done {stage stage' : Stage} {v : Works} (h : c.Advance x w stage stage' v)
    {result : Except DomainError (Executed Subscription)} {run : Option Nat}
    (hd : stage = .done result run) : stage' = stage := by
  cases h with
  | entered _ he => exact he result run hd
  | launched => cases hd

theorem Advance.of_run? {stage stage' : Stage} {v : Works} {n : Nat}
    (h : c.Advance x w stage stage' v) (hn : stage.run? = some n) : stage' = stage := by
  cases stage with
  | done result run => exact h.of_done rfl
  | _ => cases hn

/-- A command starts its run when it comes to its end. -/
theorem Advance.runs {stage stage' : Stage} {v : Works} (h : c.Advance x w stage stage' v) :
    v.runs = w.runs ∧ stage'.run? = stage.run? ∨
      ∃ r changed, stage = .launching r changed ∧
        stage' = .done (.ok (.immediate changed)) (some w.runs.length) ∧
        v.runs = w.runs ++ [⟨c.order x.token r changed, .queued, w.time⟩] := by
  cases h with
  | entered _ _ hr => exact Or.inl ⟨rfl, hr⟩
  | launched => exact Or.inr ⟨_, _, rfl, rfl, rfl⟩

theorem step_advance (stage : Stage) :
    c.Advance x w stage (c.step x catalog w stage).1 (c.step x catalog w stage).2 := by
  have hstay : ∀ st : Stage, (∀ result run, stage = .done result run → st = stage) →
      st.run? = stage.run? → st.reading? = none → c.Advance x w stage st w := by
    intro st he hr hn
    refine .entered .nothing he hr fun r hr => ?_
    rw [hn] at hr
    cases hr
  cases stage with
  | reading =>
      simp only [step]
      split
      · exact hstay _ (fun _ _ h => nomatch h) rfl rfl
      · rename_i a amount hread
        split
        · exact hstay _ (fun _ _ h => nomatch h) rfl rfl
        · refine .entered .nothing (fun _ _ h => nomatch h) rfl fun r hr => ?_
          cases hr
          exact Or.inr ⟨rfl, read_ok hread⟩
  | updating r =>
      obtain ⟨b, hb, he⟩ := update_entry (c := c) (w := w) r
      simp only [step]
      cases hu : c.update r w with
      | mk answer v =>
          rw [hu] at hb
          cases hb
          cases answer with
          | error e =>
              refine .entered he (fun _ _ h => nomatch h) rfl fun r hr => ?_
              cases hr
          | ok changed =>
              refine .entered he (fun _ _ h => nomatch h) rfl fun r' hr => ?_
              exact Or.inl hr
  | auditing r changed =>
      exact .entered .audit (fun _ _ h => nomatch h) rfl fun r' hr => Or.inl hr
  | launching r changed =>
      simp only [step]
      split
      · exact hstay _ (fun _ _ h => nomatch h) rfl rfl
      · exact .launched
      · exact hstay _ (fun _ _ h => nomatch h) rfl rfl
  | done result run => exact hstay _ (fun _ _ _ => rfl) rfl rfl
  | crashed => exact hstay _ (fun _ _ h => nomatch h) rfl rfl

end Command

end Billing.Service
