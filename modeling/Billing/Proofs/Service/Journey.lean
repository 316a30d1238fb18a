import Billing.Proofs.Service.Executions
import Billing.Proofs.Service.Lifecycle

/-!
# The way of a command

A command goes through its stages while others take theirs and runs take their steps. Where it
stands in the end tells what it did at each stage, and in which state it did so.
-/

namespace Billing.Service

open Pipeline (Order Run Works)

/-- The command that an action takes through a stage. -/
def Action.work? : Action → Option Nat
  | .work j => some j
  | _ => none

/-! ## One stage -/

namespace Command

variable {c : Command} {x : Completion.CallContext} {catalog : Catalog} {w v : Works}
  {stage : Stage} {r : Reading} {z : Subscription} {done : Executed Subscription}
  {run : Option Nat}

theorem of_step_updating (h : c.step x catalog w stage = (.updating r, v))
    (hne : stage ≠ .updating r) :
    stage = .reading ∧ c.read catalog w.store = .ok (r.account, r.amount) ∧
      r.account.today? w.clock = some r.today := by
  cases stage with
  | reading =>
      simp only [step] at h
      split at h
      · cases h
      · rename_i hread
        split at h
        · cases h
        · rename_i htoday
          cases h
          exact ⟨rfl, hread, htoday⟩
  | updating r' =>
      simp only [step] at h
      split at h <;> cases h
  | launching r' z =>
      simp only [step] at h
      split at h <;> cases h
  | done result run => cases h
  | _ => cases h

theorem of_step_auditing (h : c.step x catalog w stage = (.auditing r z, v))
    (hne : stage ≠ .auditing r z) : stage = .updating r ∧ c.update r w = (.ok z, v) := by
  cases stage with
  | reading =>
      simp only [step] at h
      split at h
      · cases h
      · split at h <;> cases h
  | updating r' =>
      simp only [step] at h
      split at h
      · cases h
      · rename_i hupdate
        cases h
        exact ⟨rfl, hupdate⟩
  | launching r' z' =>
      simp only [step] at h
      split at h <;> cases h
  | _ => cases h

theorem of_step_launching (h : c.step x catalog w stage = (.launching r z, v))
    (hne : stage ≠ .launching r z) : stage = .auditing r z := by
  cases stage with
  | reading =>
      simp only [step] at h
      split at h
      · cases h
      · split at h <;> cases h
  | updating r' =>
      simp only [step] at h
      split at h <;> cases h
  | auditing r' z' =>
      cases h
      rfl
  | launching r' z' =>
      simp only [step] at h
      split at h <;> cases h
  | _ => cases h

theorem of_step_done (h : c.step x catalog w stage = (.done (.ok done) run, v))
    (hne : stage ≠ .done (.ok done) run) :
    ∃ r, stage = .launching r done.value ∧ c.timing? r done.value w.clock = some done.timing ∧
      v.runs = w.runs ++ if done.timing = .immediate then
        [⟨c.order x.token r done.value, .queued, w.time⟩] else [] := by
  cases stage with
  | reading =>
      simp only [step] at h
      split at h
      · cases h
      · split at h <;> cases h
  | updating r' =>
      simp only [step] at h
      split at h <;> cases h
  | launching r z =>
      cases ht : c.timing? r z w.clock with
      | none =>
          simp only [step, ht] at h
          cases h
      | some timing =>
          obtain ⟨run', v', hstep, _, hruns⟩ := step_launching x catalog ht
          rw [hstep] at h
          cases h
          exact ⟨r, rfl, ht, hruns⟩
  | done result run' =>
      cases h
      exact absurd rfl hne
  | _ => cases h

theorem step_clock (c : Command) (x : Completion.CallContext) (catalog : Catalog) (w : Works)
    (stage : Stage) : (c.step x catalog w stage).2.clock = w.clock := by
  cases stage with
  | reading =>
      simp only [step]
      split
      · rfl
      · split <;> rfl
  | updating r =>
      simp only [step]
      cases hu : c.update r w with
      | mk answer v =>
          cases answer with
          | error e => exact congrArg Works.clock (update_error hu)
          | ok z => exact (update_ok hu).2.2.2.1
  | launching r z =>
      simp only [step]
      split <;> rfl
  | _ => rfl

end Command

/-! ## A stage among other actions -/

namespace System

variable {s : System} {a : Action} {as bs : List Action} {j : Nat} {m : Submitted} {c : Command}
  {x : Completion.CallContext} {stage stage₀ : Stage} {r : Reading}
  {done : Executed Subscription} {run : Option Nat}

theorem catalog_steps (s : System) (as : List Action) : (s.steps as).catalog = s.catalog := by
  induction as using List.reverseRecOn with
  | nil => rfl
  | append_singleton as a ih => rw [steps_concat, catalog_step, ih]

/-- Only an action that sets the clock moves it. -/
theorem clock_step (s : System) (ha : ∀ now, a ≠ .setClock now) :
    (s.step a).works.clock = s.works.clock := by
  cases a with
  | submit x completing timeout c =>
      rw [(apart_submit s x completing timeout c).1]
  | start i => rw [(apart_start s i).1]
  | conclude i => rw [(apart_conclude s i).1]
  | work i =>
      simp only [step]
      split
      · split
        · exact Command.step_clock ..
        · rfl
      · rfl
  | stepRun n =>
      simp only [step]
      cases hm : s.works.mover? n with
      | none => rw [Works.stepRun_of_mover?_none hm]
      | some r => rw [Works.stepRun_of_mover? hm]
  | deliver =>
      simp only [step]
      split <;> rfl
  | createAccount x n =>
      simp only [step, createAccount, Service.createAccount]
      split <;> rfl
  | replaceTags x id tags =>
      simp only [step, replaceTags, Service.replaceTags]
      split <;> rfl
  | audit i =>
      simp only [step, audit]
      split <;> rfl
  | setClock now => exact absurd rfl (ha now)
  | pass moment =>
      simp only [step]
      split
      · rfl
      · unfold passTo
        extract_lets moment later
        have hlater : later.works.clock = s.works.clock := rfl
        split <;> exact hlater
  | _ => rfl

theorem clock_steps (s : System) (has : ∀ now, .setClock now ∉ as) :
    (s.steps as).works.clock = s.works.clock := by
  induction as using List.reverseRecOn with
  | nil => rfl
  | append_singleton as a ih =>
      rw [steps_concat, clock_step, ih]
      · exact fun now hn => has now (List.mem_append_left _ hn)
      · rintro now rfl
        exact has now (by simp)

/-- A command is moved by going through a stage, and nothing else happens meanwhile. -/
theorem step_of_moved (hm : s.commands[j]? = some m)
    (hm' : (s.step a).commands[j]? = some { m with stage }) (hne : m.stage ≠ stage) :
    a = .work j ∧
      m.command.step m.context s.catalog s.works m.stage = (stage, (s.step a).works) := by
  have hwork : a = .work j := by
    rcases (s.step_effect a).command_before hm' with ⟨m', h, _, _, hst | ⟨ha, _⟩⟩ | ⟨hj, _⟩
    · rw [hm] at h
      cases h
      exact absurd hst.symm hne
    · exact ha
    · rw [hj, List.getElem?_eq_none (Nat.le_refl _)] at hm
      cases hm
  subst hwork
  refine ⟨rfl, ?_⟩
  simp only [step, hm] at hm' ⊢
  split at hm'
  · rename_i hl
    rw [if_pos hl]
    rcases (getElem?_set_eq_some_iff hm).mp hm' with ⟨_, he⟩ | ⟨hj, _⟩
    · exact Prod.ext (congrArg Submitted.stage he).symm rfl
    · exact absurd rfl hj
  · exact absurd (congrArg Submitted.stage (Option.some.inj (hm.symm.trans hm'))) hne

/-- A command that stands elsewhere than before was brought there by a stage of its own. -/
theorem exists_stage (h₀ : s.commands[j]? = some ⟨c, x, stage₀⟩)
    (h : (s.steps as).commands[j]? = some ⟨c, x, stage⟩) (hne : stage₀ ≠ stage) :
    ∃ past stage', past ++ [.work j] <+: as ∧
      (s.steps past).commands[j]? = some ⟨c, x, stage'⟩ ∧
        (s.steps (past ++ [.work j])).commands[j]? = some ⟨c, x, stage⟩ ∧ stage' ≠ stage ∧
        c.step x s.catalog (s.steps past).works stage' =
          (stage, (s.steps (past ++ [.work j])).works) := by
  have hstart : ¬ s.commands[j]? = some ⟨c, x, stage⟩ := by
    rw [h₀]
    rintro ⟨⟩
    exact hne rfl
  obtain ⟨past, a, rest, rfl, hn, ha⟩ :=
    exists_turning (p := fun t => t.commands[j]? = some ⟨c, x, stage⟩) hstart h
  obtain ⟨stage', hbefore, _⟩ := command_steps h₀ past
  have hbefore : (s.steps past).commands[j]? = some ⟨c, x, stage'⟩ := hbefore
  have hne' : stage' ≠ stage := by
    rintro rfl
    exact hn hbefore
  obtain ⟨rfl, hstep⟩ := step_of_moved hbefore ha hne'
  refine ⟨past, stage', ⟨rest, by simp⟩, hbefore, by rwa [steps_concat], hne', ?_⟩
  rw [steps_concat, ← catalog_steps s past]
  exact hstep

/-! ### The runs that a command starts -/

/-- The orders of the runs that a command starts on the way. -/
def launches (s : System) (j : Nat) : List Action → List Order
  | [] => []
  | a :: as =>
    (if a.work? = some j then ((s.step a).works.runs.drop s.works.runs.length).map (·.order)
      else []) ++ (s.step a).launches j as

theorem launches_append (s : System) (j : Nat) (as bs : List Action) :
    s.launches j (as ++ bs) = s.launches j as ++ (s.steps as).launches j bs := by
  induction as generalizing s with
  | nil => rfl
  | cons a as ih =>
      rw [List.cons_append, launches, ih, ← List.append_assoc]
      rfl

/-- A command starts no run in an action, or it is launching and comes to its end. -/
theorem launches_cases (s : System) (a : Action) (j : Nat) :
    s.launches j [a] = [] ∨ ∃ m r z n, s.commands[j]? = some m ∧ m.stage = .launching r z ∧
      (s.step a).commands[j]? = some { m with stage := .done (.ok (.immediate z)) (some n) } := by
  by_cases ha : a.work? = some j
  · obtain rfl : a = .work j := by
      cases a <;> cases ha
      rfl
    have hnone : (s.step (.work j)).works.runs = s.works.runs → s.launches j [.work j] = [] := by
      intro hruns
      simp [launches, hruns]
    have heffect := s.step_effect (.work j)
    generalize hw : (s.step (.work j)).works = w at heffect hnone
    generalize hcs : (s.step (.work j)).commands = cs at heffect
    generalize (s.step (.work j)).desk = d at heffect
    cases heffect with
    | @worked _ m stage _ hm _ hadv =>
        rcases hadv.runs with ⟨hruns, _⟩ | ⟨r, z, hst, hst', _⟩
        · exact Or.inl (hnone hruns)
        · refine Or.inr ⟨m, r, z, s.works.runs.length, hm, hst, ?_⟩
          rw [← hst']
          exact (getElem?_set_eq_some_iff hm).mpr (Or.inl ⟨rfl, rfl⟩)
    | _ => exact Or.inl (hnone rfl)
  · simp [launches, ha]

/-- A command that has come to its end starts no run. -/
theorem launches_of_done {result : Except DomainError (Executed Subscription)}
    (hm : s.commands[j]? = some m) (hd : m.stage = .done result run) (as : List Action) :
    s.launches j as = [] := by
  induction as using List.reverseRecOn with
  | nil => rfl
  | append_singleton as a ih =>
      rw [launches_append, ih, List.nil_append]
      obtain ⟨stage, hstage, hdone⟩ := command_steps hm as
      rcases (s.steps as).launches_cases a j with hnone | ⟨m', r, z, n, hm', hst, _⟩
      · exact hnone
      · rw [hstage] at hm'
        cases hm'
        have hst : stage = .launching r z := hst
        rw [hdone _ _ hd, hd] at hst
        cases hst

/-- A command that has no run has started none. -/
theorem launches_of_no_run (h₀ : s.commands[j]? = some ⟨c, x, stage₀⟩)
    (h : (s.steps as).commands[j]? = some ⟨c, x, stage⟩) (hn : stage.run? = none) :
    s.launches j as = [] := by
  induction as using List.reverseRecOn generalizing stage with
  | nil => rfl
  | append_singleton as a ih =>
      rw [launches_append]
      rw [steps_concat] at h
      obtain ⟨stage', h', _⟩ := command_steps h₀ as
      have hn' : stage'.run? = none := by
        cases hr : stage'.run? with
        | none => rfl
        | some n =>
            obtain ⟨m, hm, _, hrun⟩ := run?_steps h' hr [a]
            have hm : ((s.steps as).step a).commands[j]? = some m := hm
            rw [h] at hm
            cases hm
            rw [hn] at hrun
            cases hrun
      rw [ih h' hn']
      rcases (s.steps as).launches_cases a j with hnone | ⟨m, r, z, n, _, _, hm⟩
      · exact hnone
      · rw [h] at hm
        cases hm
        cases hn

/-! ### The whole way -/

/-- The way of a command that succeeds, by the actions that come before it reads, before it changes
its subscription, and before it launches. -/
structure Journey (s : System) (as : List Action) (j : Nat) (c : Command)
    (x : Completion.CallContext) (r : Reading) (done : Executed Subscription)
    (reading changing launching : List Action) : Prop where
  reads_first : reading ++ [.work j] <+: changing
  changes_first : changing ++ [.work j] <+: launching
  launched : launching ++ [.work j] <+: as
  read : c.read s.catalog (s.steps reading).store = .ok (r.account, r.amount)
  today : r.account.today? (s.steps reading).works.clock = some r.today
  makes : Command.Makes r (s.steps changing).works c done.value
  store : (s.steps (changing ++ [.work j])).store =
    (s.steps changing).store.insertSubscription done.value
  timing : c.timing? r done.value (s.steps launching).works.clock = some done.timing
  launches : s.launches j as =
    if done.timing = .immediate then [c.order x.token r done.value] else []

/-- A command that is to launch has read, and has changed its subscription. -/
theorem exists_change {z : Subscription} (submitted : s.commands[j]? = some ⟨c, x, .reading⟩)
    (h : (s.steps as).commands[j]? = some ⟨c, x, .launching r z⟩) :
    ∃ reading changing, reading ++ [.work j] <+: changing ∧ changing ++ [.work j] <+: as ∧
      c.read s.catalog (s.steps reading).store = .ok (r.account, r.amount) ∧
        r.account.today? (s.steps reading).works.clock = some r.today ∧
          c.update r (s.steps changing).works =
            (.ok z, (s.steps (changing ++ [.work j])).works) := by
  obtain ⟨auditing, st₂, haudited, h₂, _, hne₂, hstep₂⟩ := exists_stage submitted h nofun
  obtain rfl := Command.of_step_launching hstep₂ hne₂
  obtain ⟨changing, st₁, hchanged, h₁, _, hne₁, hstep₁⟩ := exists_stage submitted h₂ nofun
  obtain ⟨rfl, hupdate⟩ := Command.of_step_auditing hstep₁ hne₁
  obtain ⟨reading, st₀, hread, h₀, _, hne₀, hstep₀⟩ := exists_stage submitted h₁ nofun
  obtain ⟨rfl, hreads, htoday⟩ := Command.of_step_updating hstep₀ hne₀
  exact ⟨reading, changing, hread, hchanged.trans ((List.prefix_append _ _).trans haudited),
    hreads, htoday, hupdate⟩

/-- A command that succeeds has taken every stage. -/
theorem exists_journey (submitted : s.commands[j]? = some ⟨c, x, .reading⟩)
    (succeeded : (s.steps as).commands[j]? = some ⟨c, x, .done (.ok done) run⟩) :
    ∃ r reading changing launching, s.Journey as j c x r done reading changing launching := by
  obtain ⟨launching, st₃, hlaunched, h₃, hdone, hne₃, hstep₃⟩ :=
    exists_stage submitted succeeded nofun
  obtain ⟨r, rfl, htiming, hruns⟩ := Command.of_step_done hstep₃ hne₃
  obtain ⟨reading, changing, hread, hchanged, hreads, htoday, hupdate⟩ := exists_change submitted h₃
  obtain ⟨hmakes, hstore, _⟩ := Command.update_ok hupdate
  refine ⟨r, reading, changing, launching, ?_⟩
  exact {
    reads_first := hread
    changes_first := hchanged
    launched := hlaunched
    read := hreads
    today := htoday
    makes := hmakes
    store := hstore
    timing := htiming
    launches := by
      obtain ⟨rest, rfl⟩ := hlaunched
      have hbefore := launches_of_no_run submitted h₃ rfl
      have hafter := launches_of_done hdone rfl rest
      have hnow : (s.steps launching).launches j [.work j] =
          if done.timing = .immediate then [c.order x.token r done.value] else [] := by
        rw [launches, launches, List.append_nil, Action.work?, if_pos rfl, ← steps_concat, hruns,
          List.drop_left]
        split <;> rfl
      rw [launches_append, launches_append, hbefore, hnow, hafter, List.append_nil]
      rfl }

end System

end Billing.Service
