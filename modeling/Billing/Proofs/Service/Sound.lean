import Billing.Proofs.Service.Effects
import Billing.Service.Schedule

/-!
# What holds in every state

Every run was started by one command and bears its token, and so does whatever stands announced.
The desk keeps the time of the works, and no run is late. Every command has its call at the desk.
-/

namespace Billing.Service.System

open Completion (Desk Registry Move Happening)
open Pipeline (Works Run)

variable {s : System} {a : Action} {w : Works} {cs : List Submitted} {d : Desk Subscription}
  {i j n : Nat}

/-! ## Runs and commands -/

/-- A run takes a step, which leads to these works. -/
structure Stepped (s : System) (a : Action) (w : Works) (n : Nat) (r : Run) : Prop where
  action : a = .stepRun n
  mover : s.works.mover? n = some r
  run : w.runs[n]? = some (r.next s.works)
  published : w.published = s.works.published ++ r.news s.works

theorem stepped_of_mover? {r : Run} (h : s.works.mover? n = some r) :
    s.Stepped (.stepRun n) (s.works.stepRun n) n r := by
  obtain ⟨hr, _, _⟩ := Works.mover?_eq_some_iff.mp h
  refine ⟨rfl, h, ?_, ?_⟩
  · rw [Works.stepRun_of_mover? h]
    exact (getElem?_set_eq_some_iff hr).mpr (Or.inl ⟨rfl, rfl⟩)
  · rw [Works.stepRun_of_mover? h]

theorem Effect.run (h : s.Effect a w cs d) {r : Run} (hr : s.works.runs[n]? = some r) :
    w.runs[n]? = some r ∨ s.Stepped a w n r := by
  cases h with
  | worked hm _ hadv =>
      rcases hadv.runs with ⟨hruns, _⟩ | ⟨_, _, _, _, hruns⟩
      · rw [hruns]
        exact Or.inl hr
      · rw [hruns]
        exact Or.inl (getElem?_concat_of_some hr)
  | @stepped k =>
      cases hk : s.works.mover? k with
      | none =>
          rw [Works.stepRun_of_mover?_none hk]
          exact Or.inl hr
      | some r' =>
          obtain ⟨hr', _, _⟩ := Works.mover?_eq_some_iff.mp hk
          by_cases hn : n = k
          · subst hn
            rw [hr] at hr'
            cases hr'
            exact Or.inr (stepped_of_mover? hk)
          · rw [Works.stepRun_of_mover? hk]
            exact Or.inl ((getElem?_set_eq_some_iff hr').mpr (Or.inr ⟨hn, hr⟩))
  | _ => exact Or.inl hr

theorem Effect.order (h : s.Effect a w cs d) {r : Run} (hr : s.works.runs[n]? = some r) :
    ∃ r', w.runs[n]? = some r' ∧ r'.order = r.order := by
  rcases h.run hr with hr | hs
  · exact ⟨r, hr, rfl⟩
  · exact ⟨_, hs.run, rfl⟩

theorem Effect.run_before (h : s.Effect a w cs d) {r : Run} (hr : w.runs[n]? = some r) :
    (∃ r', s.works.runs[n]? = some r' ∧ r'.order = r.order) ∨
      n = s.works.runs.length ∧ ∃ (j : Nat) (m : Submitted) (rd : Reading) (changed : Subscription),
        s.commands[j]? = some m ∧ m.stage = .launching rd changed ∧
          r = ⟨m.command.order m.context.token rd changed, .queued, s.time⟩ ∧
          cs[j]? = some { m with stage := .done (.ok (.immediate changed)) (some n) } := by
  cases h with
  | @worked k m stage v hm _ hadv =>
      rcases hadv.runs with ⟨hruns, _⟩ | ⟨rd, changed, hst, hst', hruns⟩
      · rw [hruns] at hr
        exact Or.inl ⟨r, hr, rfl⟩
      · rw [hruns] at hr
        rcases getElem?_concat_eq_some_iff.mp hr with hr | ⟨rfl, rfl⟩
        · exact Or.inl ⟨r, hr, rfl⟩
        · rw [hst']
          exact Or.inr ⟨rfl, k, m, rd, changed, hm, hst, rfl,
            (getElem?_set_eq_some_iff hm).mpr (Or.inl ⟨rfl, rfl⟩)⟩
  | @stepped k =>
      cases hk : s.works.mover? k with
      | none =>
          rw [Works.stepRun_of_mover?_none hk] at hr
          exact Or.inl ⟨r, hr, rfl⟩
      | some r' =>
          obtain ⟨hr', _, _⟩ := Works.mover?_eq_some_iff.mp hk
          rw [Works.stepRun_of_mover? hk] at hr
          rcases (getElem?_set_eq_some_iff hr').mp hr with ⟨rfl, rfl⟩ | ⟨_, hr⟩
          · exact Or.inl ⟨r', hr', rfl⟩
          · exact Or.inl ⟨r, hr, rfl⟩
  | _ => exact Or.inl ⟨r, hr, rfl⟩

theorem Effect.command (h : s.Effect a w cs d) {m : Submitted} (hm : s.commands[j]? = some m) :
    ∃ stage, cs[j]? = some { m with stage } ∧ (stage = m.stage ∨
      s.letsRun j = true ∧ m.command.Advance m.context s.works m.stage stage w) := by
  cases h with
  | arrived => exact ⟨m.stage, getElem?_concat_of_some hm, Or.inl rfl⟩
  | @worked k m' stage v hm' hl hadv =>
      by_cases hj : j = k
      · subst hj
        rw [hm] at hm'
        cases hm'
        exact ⟨stage, (getElem?_set_eq_some_iff hm).mpr (Or.inl ⟨rfl, rfl⟩), Or.inr ⟨hl, hadv⟩⟩
      · exact ⟨m.stage, (getElem?_set_eq_some_iff hm').mpr (Or.inr ⟨hj, hm⟩), Or.inl rfl⟩
  | _ => exact ⟨m.stage, hm, Or.inl rfl⟩

theorem Effect.command_before (h : s.Effect a w cs d) {m : Submitted} (hm : cs[j]? = some m) :
    (∃ m', s.commands[j]? = some m' ∧ m'.command = m.command ∧ m'.context = m.context ∧
      (m.stage = m'.stage ∨
        a = .work j ∧ m.command.Advance m.context s.works m'.stage m.stage w)) ∨
      j = s.commands.length ∧ m.stage = .reading := by
  cases h with
  | arrived =>
      rcases getElem?_concat_eq_some_iff.mp hm with hm | ⟨rfl, rfl⟩
      · exact Or.inl ⟨m, hm, rfl, rfl, Or.inl rfl⟩
      · exact Or.inr ⟨rfl, rfl⟩
  | @worked k m' stage v hm' _ hadv =>
      rcases (getElem?_set_eq_some_iff hm').mp hm with ⟨rfl, rfl⟩ | ⟨_, hm⟩
      · exact Or.inl ⟨m', hm', rfl, rfl, Or.inr ⟨rfl, hadv⟩⟩
      · exact Or.inl ⟨m, hm, rfl, rfl, Or.inl rfl⟩
  | _ => exact Or.inl ⟨m, hm, rfl, rfl, Or.inl rfl⟩

/-- What stands announced after an action stood there before, or a run has just announced it. -/
theorem Effect.publication (h : s.Effect a w cs d) {p : Pipeline.Publication}
    (hp : p ∈ w.published) :
    p ∈ s.works.published ∨
      ∃ (n : Nat) (r : Run), s.Stepped a w n r ∧ p ∈ r.news s.works := by
  cases h with
  | worked _ _ hadv =>
      rw [hadv.published] at hp
      exact Or.inl hp
  | @stepped k =>
      cases hk : s.works.mover? k with
      | none =>
          rw [Works.stepRun_of_mover?_none hk] at hp
          exact Or.inl hp
      | some r =>
          have hs := stepped_of_mover? hk
          rw [hs.published] at hp
          rcases List.mem_append.mp hp with hp | hp
          · exact Or.inl hp
          · exact Or.inr ⟨k, r, hs, hp⟩
  | delivered hpub =>
      rw [hpub]
      exact Or.inl (List.mem_cons_of_mem _ hp)
  | _ => exact Or.inl hp

/-- Every run was started by one command, and all that is announced bears the token of a run. -/
structure Linked (cs : List Submitted) (w : Works) : Prop where
  started : ∀ {j n : Nat} {m : Submitted}, cs[j]? = some m → m.stage.run? = some n →
    ∃ r, w.runs[n]? = some r ∧ r.order.token = m.context.token
  alone : ∀ {i j n : Nat} {l m : Submitted}, cs[i]? = some l → cs[j]? = some m →
    l.stage.run? = some n → m.stage.run? = some n → i = j
  source : ∀ {n : Nat} {r : Run}, w.runs[n]? = some r →
    ∃ (j : Nat) (m : Submitted), cs[j]? = some m ∧ m.stage.run? = some n
  published : ∀ {p : Pipeline.Publication}, p ∈ w.published →
    ∃ (n : Nat) (r : Run), w.runs[n]? = some r ∧ r.order.token = p.token

/-- A command that has a run had it before, or it has just started it. -/
theorem Effect.run?_before (h : s.Effect a w cs d) {m : Submitted} (hm : cs[j]? = some m)
    (hn : m.stage.run? = some n) :
    (∃ m', s.commands[j]? = some m' ∧ m'.context = m.context ∧ m'.stage.run? = some n) ∨
      a = .work j ∧ n = s.works.runs.length ∧
        ∃ r, w.runs[n]? = some r ∧ r.order.token = m.context.token ∧ r.phase = .queued ∧
          r.due = s.time := by
  rcases h.command_before hm with ⟨m', hm', _, hx, hst | ⟨ha, hadv⟩⟩ | ⟨_, hst⟩
  · exact Or.inl ⟨m', hm', hx, by rw [← hst, hn]⟩
  · rcases hadv.runs with ⟨_, hrun⟩ | ⟨rd, changed, hst, hst', hruns⟩
    · exact Or.inl ⟨m', hm', hx, by rw [← hrun, hn]⟩
    · rw [hst'] at hn
      cases hn
      refine Or.inr ⟨ha, rfl, ⟨m.command.order m.context.token rd changed, .queued, s.time⟩,
        ?_, rfl, rfl, rfl⟩
      rw [hruns]
      exact getElem?_concat_eq_some_iff.mpr (Or.inr ⟨rfl, rfl⟩)
  · rw [hst] at hn
    cases hn

theorem Linked.opened (now : Instant) (stepDelay : Nat) : Linked [] (.opened now stepDelay) where
  started h := nomatch h
  alone h := nomatch h
  source h := nomatch h
  published h := nomatch h

theorem Linked.effect (h : Linked s.commands s.works) (he : s.Effect a w cs d) : Linked cs w where
  started {j n m} hm hn := by
    rcases he.run?_before hm hn with ⟨m', hm', hx, hn'⟩ | ⟨_, _, r, hr, ht, _⟩
    · obtain ⟨r, hr, ht⟩ := h.started hm' hn'
      obtain ⟨r', hr', ho⟩ := he.order hr
      exact ⟨r', hr', by rw [ho, ht, hx]⟩
    · exact ⟨r, hr, ht⟩
  alone {i j n l m} hl hm hn hn' := by
    -- The number of a run that has just been started belonged to no command before.
    have hnew : ∀ {k : Nat} {m' : Submitted}, s.commands[k]? = some m' →
        m'.stage.run? = some n → n ≠ s.works.runs.length := by
      intro k m' hm' hn
      obtain ⟨r, hr, _⟩ := h.started hm' hn
      have := (List.getElem?_eq_some_iff.mp hr).1
      omega
    rcases he.run?_before hl hn with ⟨l', hl', _, hnl⟩ | ⟨ha, hlen, _⟩ <;>
      rcases he.run?_before hm hn' with ⟨m', hm', _, hnm⟩ | ⟨ha', hlen', _⟩
    · exact h.alone hl' hm' hnl hnm
    · exact absurd hlen' (hnew hl' hnl)
    · exact absurd hlen (hnew hm' hnm)
    · rw [ha] at ha'
      cases ha'
      rfl
  source {n r} hr := by
    rcases he.run_before hr with ⟨r', hr', _⟩ | ⟨_, j, m, rd, changed, _, _, _, hm⟩
    · obtain ⟨j, m, hm, hn⟩ := h.source hr'
      obtain ⟨stage, hm', hst | ⟨_, hadv⟩⟩ := he.command hm
      · exact ⟨j, _, hm', by rw [← hn, ← hst]⟩
      · exact ⟨j, _, hm', by rw [← hn, ← hadv.of_run? hn]⟩
    · exact ⟨j, _, hm, rfl⟩
  published {p} hp := by
    rcases he.publication hp with hp | ⟨n, r, hs, hp⟩
    · obtain ⟨n, r, hr, ht⟩ := h.published hp
      obtain ⟨r', hr', ho⟩ := he.order hr
      exact ⟨n, r', hr', by rw [ho, ht]⟩
    · obtain ⟨e, _, rfl⟩ := List.mem_map.mp hp
      exact ⟨n, r.next s.works, hs.run, rfl⟩

/-! ## Time -/

/-- The desk keeps the time of the works, and time waits for every run. -/
structure Timed (w : Works) (d : Desk Subscription) : Prop where
  now : d.now = w.time
  delay : w.stepDelay = stepDelay
  timely : ∀ {n : Nat} {r : Run}, w.runs[n]? = some r → r.phase ≠ .ended → w.time ≤ r.due

theorem Timed.effect (h : Timed s.works s.desk) (he : s.Effect a w cs d) : Timed w d := by
  cases he with
  | idle => exact h
  | arrived hd => exact ⟨(hd.now.trans (Desk.now_step _)).trans h.now, h.delay, h.timely⟩
  | turned => exact ⟨(Desk.now_step _).trans h.now, h.delay, h.timely⟩
  | worked _ _ hadv =>
      obtain ⟨ht, hs⟩ := hadv.time
      refine ⟨ht ▸ h.now, hs ▸ h.delay, fun {n r} hr hp => ?_⟩
      rw [ht]
      rcases hadv.runs with ⟨hruns, _⟩ | ⟨_, _, _, _, hruns⟩
      · rw [hruns] at hr
        exact h.timely hr hp
      · rw [hruns] at hr
        rcases getElem?_concat_eq_some_iff.mp hr with hr | ⟨_, rfl⟩
        · exact h.timely hr hp
        · exact Nat.le_refl _
  | @stepped k =>
      cases hk : s.works.mover? k with
      | none =>
          rw [Works.stepRun_of_mover?_none hk]
          exact h
      | some r =>
          obtain ⟨hr, _, _⟩ := Works.mover?_eq_some_iff.mp hk
          rw [Works.stepRun_of_mover? hk]
          refine ⟨h.now, h.delay, fun {n r'} hr' hp => ?_⟩
          rcases (getElem?_set_eq_some_iff hr).mp hr' with ⟨_, rfl⟩ | ⟨_, hr'⟩
          · simp only [Run.next]
            split
            · exact Nat.le_add_right _ _
            · exact Nat.le_refl _
          · exact h.timely hr' hp
  | delivered => exact ⟨(Desk.now_step _).trans h.now, h.delay, h.timely⟩
  | entered => exact ⟨h.now, h.delay, h.timely⟩
  | closed hd => exact ⟨hd.now.trans h.now, h.delay, h.timely⟩
  | passed _ hdue hd =>
      refine ⟨?_, h.delay, fun hr hp => Nat.max_le.mpr ⟨h.timely hr hp, hdue hr hp⟩⟩
      rw [hd.now, Desk.now_advance, h.now]
      rfl

/-! ## The desk -/

/-- Every command has its call, and every waiting call its own waiter. -/
structure Posted (cs : List Submitted) (d : Desk Subscription) : Prop where
  length : d.calls.length = cs.length
  contexts : ∀ {j : Nat} {c : Completion.Call Subscription} {m : Submitted},
    d.calls[j]? = some c → cs[j]? = some m → c.context = m.context
  owned : ∃ hash, Desk.Owned (.empty hash) d
  made : ∀ {n : Nat}, n ∈ d.registry.completed → n < d.registry.made

theorem Posted.alike {p : Prop} {e : Desk Subscription} (h : Posted cs d) (k : Desk.Alike p d e) :
    Posted cs e where
  length := k.length.trans h.length
  contexts hc hm := by
    obtain ⟨c', b, hc', rfl, _⟩ := k.of_calls hc
    have hx : c'.context = _ := h.contexts hc' hm
    exact hx
  owned := by
    obtain ⟨hash, ho⟩ := h.owned
    exact ⟨hash, ho.alike k⟩
  made hn := by
    rw [k.registry] at hn ⊢
    exact h.made hn

theorem Posted.frame {e : Desk Subscription} {m : Move Subscription} (h : Posted cs d)
    (hm : ∀ i, m ≠ .happening (.interrupt i)) (he : e = d.move m)
    (hl : e.calls.length = d.calls.length) {c : Completion.Call Subscription} {l : Submitted}
    (hc : e.calls[j]? = some c) (hm' : cs[j]? = some l) : c.context = l.context := by
  have hj : j < d.calls.length := hl ▸ (List.getElem?_eq_some_iff.mp hc).1
  have hd := List.getElem?_eq_getElem hj
  obtain ⟨c', hc', hf, _⟩ := Desk.move_call hd m hm
  rw [← he, hc] at hc'
  cases hc'
  have hx : c.context = (d.calls[j]).context := congrArg (fun x => x.1.1) hf
  rw [hx]
  exact h.contexts hd hm'

theorem Posted.holds_of_find? (h : Posted cs d) {k : CorrelationToken} {v : Completion.Waiter}
    (hv : d.registry.find? k = some v) : v.token = k ∧ ∃ i, d.Holds i v := by
  obtain ⟨hash, ho⟩ := h.owned
  rcases ho.find?_eq_some_iff.mp hv with hn | hi
  · rw [Registry.find?_empty] at hn
    cases hn
  · exact hi

theorem Posted.step (h : Posted cs d) {x : Happening Subscription}
    (hx : x.call?.isSome ∨ ∃ t e, x = .event t e) (hi : ∀ i, x ≠ .interrupt i) :
    Posted cs (d.step x) where
  length := (Desk.length_step hx).trans h.length
  contexts hc hm := by
    refine h.frame (m := .happening x) (fun i he => ?_) rfl (Desk.length_step hx) hc hm
    cases he
    exact hi i rfl
  owned := by
    obtain ⟨hash, ho⟩ := h.owned
    exact ⟨hash, ho.step x⟩
  made hn := by
    refine Nat.lt_of_lt_of_le ?_ Desk.made_step
    rcases Desk.mem_completed_step.mp hn with hn | ⟨t, e, v, _, hv, _, rfl⟩
    · exact h.made hn
    · obtain ⟨hash, ho⟩ := h.owned
      obtain ⟨_, i, hi⟩ := h.holds_of_find? hv
      exact ho.number hi

theorem Posted.advance (h : Posted cs d) (moment : Nat) : Posted cs (d.advance moment) where
  length := (Desk.length_advance moment).trans h.length
  contexts hc hm :=
    h.frame (m := .pass moment) (fun _ he => nomatch he) rfl (Desk.length_advance moment) hc hm
  owned := by
    obtain ⟨hash, ho⟩ := h.owned
    exact ⟨hash, ho.advance moment⟩
  made hn := by
    rw [Desk.completed_advance] at hn
    exact Nat.lt_of_lt_of_le (h.made hn) (Desk.made_advance moment)

theorem Posted.arrive (h : Posted cs d) (x : Completion.CallContext) (completing : Bool)
    (timeout : Nat) (c : Command) :
    Posted (cs ++ [⟨c, x, .reading⟩]) (d.step (.arrive x completing timeout)) where
  length := by
    show (d.calls ++ [_]).length = (cs ++ [_]).length
    rw [List.length_append, List.length_append, h.length]
    rfl
  contexts hc hm := by
    rcases getElem?_concat_eq_some_iff.mp hc with hc | ⟨hj, rfl⟩ <;>
      rcases getElem?_concat_eq_some_iff.mp hm with hm | ⟨hj', rfl⟩
    · exact h.contexts hc hm
    · have := (List.getElem?_eq_some_iff.mp hc).1
      rw [hj', h.length] at this
      exact absurd this (Nat.lt_irrefl _)
    · have := (List.getElem?_eq_some_iff.mp hm).1
      rw [hj, h.length] at this
      exact absurd this (Nat.lt_irrefl _)
    · rfl
  owned := by
    obtain ⟨hash, ho⟩ := h.owned
    exact ⟨hash, ho.step _⟩
  made hn := h.made hn

theorem Posted.effect (h : Posted s.commands s.desk) (he : s.Effect a w cs d) : Posted cs d := by
  cases he with
  | arrived hd => exact (h.arrive _ _ _ _).alike hd
  | turned hb => cases hb <;> exact h.step (Or.inl rfl) (fun _ hi => nomatch hi)
  | @worked i m stage v hm _ _ =>
      refine ⟨h.length.trans List.length_set.symm, fun {j c l} hc hl => ?_, h.owned, h.made⟩
      rcases (getElem?_set_eq_some_iff hm).mp hl with ⟨rfl, rfl⟩ | ⟨_, hl⟩
      · have hx : c.context = m.context := h.contexts hc hm
        exact hx
      · exact h.contexts hc hl
  | delivered => exact h.step (Or.inr ⟨_, _, rfl⟩) (fun _ hi => nomatch hi)
  | closed hd => exact h.alike hd
  | passed _ _ hd => exact (h.advance _).alike hd
  | _ => exact h

/-- Whoever is completed by now had been made before. -/
theorem Posted.lt_made (h : Posted s.commands s.desk) (he : s.Effect a w cs d)
    (hn : n ∈ d.registry.completed) : n < s.desk.registry.made := by
  rcases he.mem_completed hn with hn | ⟨p, rest, u, _, _, hu, _, rfl⟩
  · exact h.made hn
  · obtain ⟨hash, ho⟩ := h.owned
    obtain ⟨_, i, hi⟩ := h.holds_of_find? hu
    exact ho.number hi

/-- A waiter that a call holds is completed by the event that comes next, which bears its token. -/
theorem Posted.completed_next (h : Posted s.commands s.desk) (he : s.Effect a w cs d)
    {v : Completion.Waiter} (hv : s.desk.Holds i v) (hn : v.number ∈ d.registry.completed) :
    v.number ∈ s.desk.registry.completed ∨ ∃ p rest, a = .deliver ∧
      s.works.published = p :: rest ∧ p.token = v.token ∧
        Completion.settles v.tags p.event = true := by
  obtain ⟨hash, ho⟩ := h.owned
  rcases he.mem_completed hn with hn | ⟨p, rest, u, ha, hp, hu, hset, hnum⟩
  · exact Or.inl hn
  · -- The waiter that the event has found is this one, for it has the same number.
    obtain ⟨htok, j, hj⟩ := h.holds_of_find? hu
    cases ho.apart hv hj (Or.inr hnum)
    cases hv.unique hj
    exact Or.inr ⟨p, rest, ha, hp, htok.symm, hset⟩

/-! ## Every state -/

/-- What holds of the system in every state. -/
structure Sound (s : System) : Prop where
  linked : Linked s.commands s.works
  timed : Timed s.works s.desk
  posted : Posted s.commands s.desk

theorem Sound.opened (settings : Config.Settings) (hash : CorrelationToken → UInt64)
    (now : Instant) : (System.opened settings hash now).Sound where
  linked := .opened now stepDelay
  timed := ⟨rfl, rfl, fun h => nomatch h⟩
  posted := {
    length := rfl
    contexts := fun h => nomatch h
    owned := ⟨hash, .opened _⟩
    made := fun h => nomatch h }

theorem Sound.step (h : s.Sound) (a : Action) : (s.step a).Sound where
  linked := h.linked.effect (s.step_effect a)
  timed := h.timed.effect (s.step_effect a)
  posted := h.posted.effect (s.step_effect a)

theorem Sound.steps (h : s.Sound) (as : List Action) : (s.steps as).Sound := by
  induction as generalizing s with
  | nil => exact h
  | cons a as ih => exact ih (h.step a)

end Billing.Service.System
