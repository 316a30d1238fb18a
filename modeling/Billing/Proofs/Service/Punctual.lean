import Billing.Proofs.Service.Settling

/-!
# How long a call may have to wait

A run pauses three times at most, and time passes no run that is due. So a call that is to be told
that its billing has settled is told within three pauses, however many other runs there are.
-/

namespace Billing

namespace Pipeline

theorem Run.due_next {r : Run} {w : Works}
    (h : (r.next w).phase ≠ .ended) :
    (r.next w).due + w.stepDelay * r.phase.pausesMade =
      w.time + w.stepDelay * (r.next w).phase.pausesMade := by
  have hmade := (Phase.step_pausesMade w.clock).resolve_left h
  simp only [Run.next] at h hmade ⊢
  rw [hmade, Nat.mul_add]
  split
  · omega
  · omega

end Pipeline

namespace Service

open Completion (Call Desk Phase Waiter)
open Pipeline (Run Works)

/-! ## One action -/

namespace System

variable {s : System} {a : Action} {w : Works} {cs : List Submitted} {d : Desk Subscription}

theorem Effect.maxWait (h : s.Effect a w cs d) : d.maxWait = s.desk.maxWait := by
  cases h with
  | arrived hd => exact hd.maxWait.trans (Desk.maxWait_step _)
  | turned => exact Desk.maxWait_step _
  | delivered => exact Desk.maxWait_step _
  | closed hd => exact hd.maxWait
  | passed _ _ hd => exact hd.maxWait.trans (Desk.maxWait_advance _)
  | _ => rfl

theorem maxWait_steps (s : System) (as : List Action) :
    (s.steps as).desk.maxWait = s.desk.maxWait := by
  induction as generalizing s with
  | nil => rfl
  | cons a as ih => exact (ih (s.step a)).trans (s.step_effect a).maxWait

theorem published_of_quiet (h : s.isBusy = false) : s.works.published = [] := by
  have : s.works.published.isEmpty = true := by
    simp only [isBusy, Bool.or_eq_false_iff] at h
    simpa using h.1.1
  exact List.isEmpty_iff.mp this

/-- When time passes, a call with a waiter waits. -/
theorem waiting_of_quiet (h : s.isBusy = false) {j : Nat} {c : Call Subscription} {v : Waiter}
    (hc : s.desk.calls[j]? = some c) (hv : c.phase.waiter? = some v) :
    ∃ value deadline, c.phase = .waiting v value deadline := by
  have hbusy : s.callIsBusy = false := by
    simp only [isBusy, Bool.or_eq_false_iff] at h
    exact h.2
  have hcall := List.any_eq_false.mp hbusy c (List.mem_of_getElem? hc)
  cases hp : c.phase with
  | waiting w value deadline =>
      rw [hp] at hv
      cases hv
      exact ⟨value, deadline, rfl⟩
  | running w => simp [hp] at hcall
  | _ =>
      rw [hp] at hv
      cases hv

end System

namespace Flight

variable {f : Flight} {past : List Action} {a : Action} {c c' : Call Subscription}
  {m m' : Submitted} {v : Waiter} {n start : Nat}

theorem maxWait (f : Flight) (past : List Action) :
    (f.since past).desk.maxWait = f.settings.maxCallTimeout * 1000 :=
  System.maxWait_steps _ _

/-- The longest wait of the call, in milliseconds. -/
def patience (f : Flight) : Nat := min (f.timeout * 1000) (f.settings.maxCallTimeout * 1000)

theorem Status.patience (h : f.Status past c m) :
    c.patience (f.since past).desk.maxWait = f.patience := by
  have ht : c.timeout = f.timeout := congrArg (fun x => x.2.2) h.asked
  rw [Call.patience, Flight.patience, maxWait, ht]

/-! ## The wait -/

/-- When the wait of a call began, or would begin by now. -/
def Began (patience time start : Nat) : Phase Subscription → Prop
  | .running _ => start = time
  | .waiting _ _ deadline => deadline = start + patience
  | _ => False

/-- The run of a call is not behind, and the call was told in time. -/
structure OnTime (f : Flight) (past : List Action) (v : Waiter) (n start : Nat) (r : Run) :
    Prop where
  run : (f.since past).works.runs[n]? = some r
  due : r.phase ≠ .ended → r.due ≤ start + stepDelay * r.phase.pausesMade
  told : r.phase = .ended → Told (f.since past).works (f.since past).desk v →
    (f.since past).time ≤ start + 3 * stepDelay

/-- A call keeps the beginning of its wait, and time does not pass it once its waiter is
completed. -/
theorem Status.began (h : f.Status past c m) (h' : f.Status (past ++ [a]) c' m')
    (hv : c.phase.waiter? = some v) (hv' : c'.phase.waiter? = some v)
    (hb : Began f.patience (f.since past).time start c.phase) :
    Began f.patience (f.since (past ++ [a])).time start c'.phase ∧
      ((f.since (past ++ [a])).time = (f.since past).time ∨
        v.number ∉ (f.since past).desk.registry.completed ∧
          (f.since past).works.published = []) := by
  have hnow : (f.since past).desk.now = (f.since past).time := (f.sound past).timed.now
  have hpat := h.patience
  obtain ⟨hp, _⟩ := h.next h'
  rw [since_concat]
  generalize c'.phase = p at hp hv'
  rcases hp with ⟨rfl, ht⟩ | ⟨x, hx, ht, ha⟩
  · exact ⟨by rw [System.time, ht]; exact hb, Or.inl ht⟩
  · cases ha with
    | same harmed =>
        cases x with
        | happening y => exact ⟨by rw [System.time, ht]; exact hb, Or.inl ht⟩
        | pass reached =>
            cases hx with
            | pass hq hdue =>
                obtain ⟨value, deadline, hwait⟩ := System.waiting_of_quiet hq h.call hv
                rw [hwait] at hb ⊢
                refine ⟨hb, ?_⟩
                by_cases hlt : (f.since past).desk.now < reached
                · exact Or.inr ⟨harmed rfl hlt hwait, System.published_of_quiet hq⟩
                · refine Or.inl (ht.trans (Nat.max_eq_left ?_))
                  rw [← hnow]
                  exact Nat.le_of_not_lt hlt
    | waits hb' =>
        rw [hb'] at hb
        obtain rfl : start = (f.since past).time := hb
        refine ⟨?_, Or.inl ht⟩
        show _ + _ = _ + _
        rw [hpat, hnow]
    | enlisted hb' =>
        rw [hb'] at hv
        cases hv
    | _ => cases hv'

theorem OnTime.step {r : Run} (ho : f.OnTime past v n start r)
    (hs : (f.since past).Stepped a ((f.since past).step a).works n r)
    (ht : ((f.since past).step a).time = (f.since past).time) :
    f.OnTime (past ++ [a]) v n start (r.next (f.since past).works) := by
  obtain ⟨hr, he, hdue⟩ := Works.mover?_eq_some_iff.mp hs.mover
  have hstart := ho.due he
  have hnow : (f.since past).time = r.due :=
    Nat.le_antisymm ((f.sound past).timed.timely hr he) hdue
  have hdelay : (f.since past).works.stepDelay = stepDelay := (f.sound past).timed.delay
  have hmade := r.phase.pausesMade_le
  refine ⟨by rw [since_concat]; exact hs.run, fun hn => ?_, fun _ _ => ?_⟩
  · have hnext := Run.due_next hn
    rw [hdelay] at hnext
    have hnow : (f.since past).works.time = r.due := hnow
    omega
  · rw [since_concat, ht, hnow]
    refine Nat.le_trans hstart (Nat.add_le_add_left ?_ start)
    rw [Nat.mul_comm]
    exact Nat.mul_le_mul_right _ hmade

theorem Status.started (h : f.Status past c m) (h' : f.Status (past ++ [a]) c' m')
    (hv : c.phase.waiter? = some v) (hnone : m.stage.run? = none) (hn : m'.stage.run? = some n) :
    ∃ start r, Began f.patience (f.since (past ++ [a])).time start c'.phase ∧
      f.OnTime (past ++ [a]) v n start r := by
  have hcommand := h'.command
  rw [since_concat] at hcommand
  obtain ⟨hp, hst⟩ := h.next h'
  have he := (f.since past).step_effect a
  rcases he.run?_before hcommand hn with ⟨m₀, hm₀, _, hn₀⟩ | ⟨rfl, _, r, hr, _, hq, hd⟩
  · rw [h.command] at hm₀
    cases hm₀
    rw [hnone] at hn₀
    cases hn₀
  · obtain ⟨hp, ht⟩ : c'.phase = c.phase ∧ ((f.since past).step (.work f.number)).works.time =
        (f.since past).time := by
      rcases hp with hp | ⟨x, hx, _⟩
      · exact hp
      · cases hx with
        | turn hb => cases hb
    refine ⟨(f.since past).time, r, ?_, ?_, fun _ => ?_, fun he => ?_⟩
    · rw [since_concat, System.time, ht, hp]
      cases hphase : c.phase with
      | running w => rfl
      | waiting w value deadline =>
          -- The command of a waiting call has come to its end, so that it starts no run.
          have hstands := h.stands
          rw [hphase] at hstands
          obtain ⟨_, run, hdone⟩ := hstands
          have hstage :=
            stage_of_not_running h.call (fun w hw => by rw [hphase] at hw; cases hw) hst
          rw [hstage, hnone] at hn
          cases hn
      | _ =>
          rw [hphase] at hv
          cases hv
    · rw [since_concat]
      exact hr
    · rw [hd, hq]
      exact Nat.le_refl _
    · rw [hq] at he
      cases he

theorem on_time_concat (h : f.Status past c m) (h' : f.Status (past ++ [a]) c' m')
    (hu : f.Unshared (past ++ [a])) (hv' : c'.phase.waiter? = some v) (hn : m'.stage.run? = some n)
    (ih : c.phase.waiter? = some v → m.stage.run? = some n → ∃ start r,
      Began f.patience (f.since past).time start c.phase ∧ f.OnTime past v n start r) :
    ∃ start r, Began f.patience (f.since (past ++ [a])).time start c'.phase ∧
      f.OnTime (past ++ [a]) v n start r := by
  rcases h.waiter?_before h' hv' with hv | ⟨_, hst, _⟩
  · cases hrun : m.stage.run? with
    | none => exact h.started h' hv hrun hn
    | some k =>
        have hstage : m'.stage = m.stage := by
          rcases (h.next h').2 with hst | ⟨_, hadv⟩
          · exact hst
          · exact hadv.of_run? hrun
        rw [hstage, hrun] at hn
        cases hn
        obtain ⟨start, r, hb, ho⟩ := ih hv hrun
        obtain ⟨hb', hwait⟩ := h.began h' hv hv' hb
        have he := (f.since past).step_effect a
        by_cases hs : (f.since past).Stepped a ((f.since past).step a).works n r
        · have ht : ((f.since past).step a).time = (f.since past).time := by
            rw [hs.action]
            exact Works.time_stepRun ..
          exact ⟨start, r.next _, hb', ho.step hs ht⟩
        · have hr := (he.run ho.run).resolve_right hs
          refine ⟨start, r, hb', by rw [since_concat]; exact hr, ho.due, fun hend ht => ?_⟩
          rw [since_concat, h.told_iff hu.of_append hv (not_stepped hrun ho.run hs)] at ht
          rcases hwait with ht' | ⟨hn, hpub⟩
          · rw [ht']
            exact ho.told hend ht
          · rcases ht with ht | ⟨p, hp, _⟩
            · exact absurd ht hn
            · rw [hpub] at hp
              cases hp
  · rw [hst] at hn
    cases hn

theorem on_time (h : f.Status past c m) (hu : f.Unshared past) (hv : c.phase.waiter? = some v)
    (hn : m.stage.run? = some n) : ∃ start r,
      Began f.patience (f.since past).time start c.phase ∧ f.OnTime past v n start r := by
  induction past using List.reverseRecOn generalizing c m with
  | nil =>
      rw [h.arrived] at hv
      cases hv
  | append_singleton past a ih =>
      obtain ⟨c₀, m₀, h₀⟩ := f.status past
      exact on_time_concat h₀ h hu hv hn (ih h₀ hu.of_append)

end Flight

end Service

end Billing
