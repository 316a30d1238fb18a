import Billing.Proofs.Service.Flight

/-!
# Whether a call has been told

A call that waits has been told that its billing has settled if its waiter is completed, or if an
event that completes it stands announced. As long as no other command bears the token, it has been
told exactly if its own run has announced what settles; and until then time does not pass its run.
-/

namespace Billing.Service

open Completion (Call Desk Phase Waiter settles)
open Pipeline (Run Works settlesUnder)

/-! ## One action -/

/-- A waiter is completed, or an event that completes it stands announced. -/
def Told (w : Works) (d : Desk Subscription) (v : Waiter) : Prop :=
  v.number ∈ d.registry.completed ∨
    ∃ p ∈ w.published, p.token = v.token ∧ settles v.tags p.event = true

namespace System

variable {s : System} {a : Action} {w : Works} {cs : List Submitted} {d : Desk Subscription}
  {i n : Nat} {v : Waiter}

theorem Effect.brought (h : s.Effect a w cs d) {p : Pipeline.Publication}
    (hp : p ∈ s.works.published) : p ∈ w.published ∨
      ∀ u, s.desk.registry.find? p.token = some u → settles u.tags p.event = true →
        u.number ∈ d.registry.completed := by
  cases h with
  | worked _ _ hadv =>
      rw [hadv.published]
      exact Or.inl hp
  | @stepped k =>
      cases hk : s.works.mover? k with
      | none =>
          rw [Works.stepRun_of_mover?_none hk]
          exact Or.inl hp
      | some r =>
          rw [Works.stepRun_of_mover? hk]
          exact Or.inl (List.mem_append_left _ hp)
  | delivered hpub =>
      rw [hpub, List.mem_cons] at hp
      rcases hp with rfl | hp
      · exact Or.inr fun u hu hset =>
          Desk.mem_completed_step.mpr (Or.inr ⟨_, _, u, rfl, hu, hset, rfl⟩)
      · exact Or.inl hp
  | _ => exact Or.inl hp

/-- Only an announcement tells a call anything new. -/
theorem Effect.told_iff (h : s.Effect a w cs d) (hp : Posted s.commands s.desk)
    (hv : s.desk.Holds i v) :
    Told w d v ↔ Told s.works s.desk v ∨ ∃ n r, s.Stepped a w n r ∧
      ∃ p ∈ r.news s.works, p.token = v.token ∧ settles v.tags p.event = true := by
  obtain ⟨hash, ho⟩ := hp.owned
  constructor
  · rintro (hn | ⟨p, hpub, htok, hset⟩)
    · rcases hp.completed_next h hv hn with hn | ⟨p, rest, _, hpub, htok, hset⟩
      · exact Or.inl (Or.inl hn)
      · exact Or.inl (Or.inr ⟨p, hpub ▸ List.mem_cons_self, htok, hset⟩)
    · rcases h.publication hpub with hpub | ⟨n, r, hs, hpub⟩
      · exact Or.inl (Or.inr ⟨p, hpub, htok, hset⟩)
      · exact Or.inr ⟨n, r, hs, p, hpub, htok, hset⟩
  · rintro ((hn | ⟨p, hpub, htok, hset⟩) | ⟨n, r, hs, p, hpub, htok, hset⟩)
    · exact Or.inl (h.completed hn)
    · rcases h.brought hpub with hpub | hdone
      · exact Or.inr ⟨p, hpub, htok, hset⟩
      · exact Or.inl (hdone v (htok ▸ ho.find?_of_holds hv) hset)
    · exact Or.inr ⟨p, by rw [hs.published]; exact List.mem_append_right _ hpub, htok, hset⟩

end System

/-! ## The own run -/

namespace Flight

variable {f : Flight} {past : List Action} {c : Call Subscription} {m : Submitted} {v : Waiter}
  {n : Nat} {r : Run}

theorem Status.context (h : f.Status past c m) : c.context = f.context :=
  congrArg (fun x => x.1) h.asked

theorem Status.token (h : f.Status past c m) (hv : c.phase.waiter? = some v) :
    v.token = f.context.token := by
  obtain ⟨hash, ho⟩ := (f.sound past).posted.owned
  rw [ho.token h.call hv, h.context]

theorem Status.run (h : f.Status past c m) (hn : m.stage.run? = some n) :
    ∃ r, (f.since past).works.runs[n]? = some r ∧ r.order.token = f.context.token := by
  obtain ⟨r, hr, ht⟩ := (f.sound past).linked.started h.command hn
  exact ⟨r, hr, by rw [ht, h.same.2]⟩

/-- Only the run that the command started bears its token. -/
theorem Status.run?_of_token (h : f.Status past c m) (hu : f.Unshared past)
    (hr : (f.since past).works.runs[n]? = some r) (ht : r.order.token = f.context.token) :
    m.stage.run? = some n := by
  obtain ⟨j, m', hm', hn⟩ := (f.sound past).linked.source hr
  obtain ⟨r', hr', ht'⟩ := (f.sound past).linked.started hm' hn
  rw [hr] at hr'
  cases hr'
  have hj := hu j m' hm' (ht'.symm.trans ht)
  subst hj
  rw [h.command] at hm'
  cases hm'
  exact hn

/-- A call has been told exactly if its own run has settled under the tags that it noted. -/
def Tracked (f : Flight) (past : List Action) (v : Waiter) : Option Nat → Prop
  | none => ¬ Told (f.since past).works (f.since past).desk v
  | some n => ∃ r, (f.since past).works.runs[n]? = some r ∧
    ∀ read, (r.phase ≠ .queued → f.readTags? past n = some read) →
      (Told (f.since past).works (f.since past).desk v ↔
        r.phase.hasSettled v.tags read r.order.amount = true)

/-- A run that a call may wait for follows the tags that it has read. -/
theorem follows_of_readings (hf : (f.since past).Supplied)
    (hr : (f.since past).works.runs[n]? = some r) {read : ControlTagSet} {rest : List Action}
    (hread : r.phase ≠ .queued → f.readTags? (past ++ rest) n = some read) :
    r.phase.Follows r.order read ∧ (r.phase ≠ .queued → f.readTags? past n = some read) := by
  rcases (f.readings hf).runs hr with ⟨hq, _⟩ | ⟨hq, tags, htags, hfol⟩
  · exact ⟨by rw [hq]; trivial, fun hn => absurd hq hn⟩
  · have htags : f.readTags? past n = some tags := htags
    have hr := hread hq
    rw [readTags?_append_of_some rest htags] at hr
    cases hr
    exact ⟨hfol, fun _ => htags⟩

theorem not_stepped {a : Action} {w : Works} (hn : m.stage.run? = some n)
    (hr : (f.since past).works.runs[n]? = some r) (hs : ¬ (f.since past).Stepped a w n r)
    (k : Nat) (r' : Run) (hk : m.stage.run? = some k) : ¬ (f.since past).Stepped a w k r' := by
  intro hs'
  rw [hn] at hk
  cases hk
  have hr' := (Works.mover?_eq_some_iff.mp hs'.mover).1
  rw [hr] at hr'
  cases hr'
  exact hs hs'

/-- An action that is no step of the own run tells the call nothing. -/
theorem Status.told_iff (h : f.Status past c m) (hu : f.Unshared past)
    (hv : c.phase.waiter? = some v) {a : Action}
    (ha : ∀ k r, m.stage.run? = some k →
      ¬ (f.since past).Stepped a ((f.since past).step a).works k r) :
    Told ((f.since past).step a).works ((f.since past).step a).desk v ↔
      Told (f.since past).works (f.since past).desk v := by
  rw [((f.since past).step_effect a).told_iff (f.sound past).posted ⟨c, h.call, hv⟩]
  constructor
  · rintro (ht | ⟨k, r, hs, p, hp, htok, _⟩)
    · exact ht
    · obtain ⟨e, _, rfl⟩ := List.mem_map.mp hp
      have hr := (Works.mover?_eq_some_iff.mp hs.mover).1
      exact absurd hs (ha k r (h.run?_of_token hu hr (htok.trans (h.token hv))))
  · exact Or.inl

theorem any_settles_iff {w : Works} {tags : ControlTagSet} :
    ((r.phase.step r.order w.books w.clock).event.any (settles tags) = true) ↔
      ∃ p ∈ r.news w, settles tags p.event = true := by
  unfold Run.news
  cases (r.phase.step r.order w.books w.clock).event with
  | none => simp
  | some e => simp

/-- A step of the own run tells the call that its billing has settled if it announces that. -/
theorem Status.told_step (h : f.Status past c m) (hu : f.Unshared past)
    (hv : c.phase.waiter? = some v) {a : Action} (hn : m.stage.run? = some n)
    (hs : (f.since past).Stepped a ((f.since past).step a).works n r) :
    Told ((f.since past).step a).works ((f.since past).step a).desk v ↔
      Told (f.since past).works (f.since past).desk v ∨
        (r.phase.step r.order (f.since past).works.books (f.since past).works.clock).event.any
          (settles v.tags) = true := by
  rw [((f.since past).step_effect a).told_iff (f.sound past).posted ⟨c, h.call, hv⟩,
    any_settles_iff]
  have hr := (Works.mover?_eq_some_iff.mp hs.mover).1
  obtain ⟨r', hr', ht⟩ := h.run hn
  rw [hr] at hr'
  cases hr'
  constructor
  · rintro (ht' | ⟨k, r', hs', p, hp, htok, hset⟩)
    · exact Or.inl ht'
    · obtain ⟨e, _, rfl⟩ := List.mem_map.mp hp
      have hr' := (Works.mover?_eq_some_iff.mp hs'.mover).1
      have hk := h.run?_of_token hu hr' (htok.trans (h.token hv))
      rw [hn] at hk
      cases hk
      rw [hr] at hr'
      cases hr'
      exact Or.inr ⟨_, hp, hset⟩
  · rintro (ht' | ⟨p, hp, hset⟩)
    · exact Or.inl ht'
    · refine Or.inr ⟨n, r, hs, p, hp, ?_, hset⟩
      obtain ⟨e, _, rfl⟩ := List.mem_map.mp hp
      exact ht.trans (h.token hv).symm

variable {a : Action} {c' : Call Subscription} {m' : Submitted}

theorem Status.next (h : f.Status past c m) (h' : f.Status (past ++ [a]) c' m') :
    (c'.phase = c.phase ∧ ((f.since past).step a).works.time = (f.since past).time ∨
        ∃ x, (f.since past).Moves a x ∧
          ((f.since past).step a).works.time = x.timeFrom (f.since past).time ∧
          c.After (f.since past).desk f.number x c'.phase) ∧
      (m'.stage = m.stage ∨ (f.since past).letsRun f.number = true ∧
        m.command.Advance m.context (f.since past).works m.stage m'.stage
          ((f.since past).step a).works) := by
  have he := (f.since past).step_effect a
  have hcall := h'.call
  have hcommand := h'.command
  rw [since_concat] at hcall hcommand
  obtain ⟨c'', hc'', _, _, hp⟩ := he.call h.call
  obtain ⟨stage, hstage, hst⟩ := he.command h.command
  rw [hcall] at hc''
  cases hc''
  rw [hcommand] at hstage
  cases hstage
  exact ⟨hp, hst⟩

/-- The call had its waiter before an action, or it has just made it, and its command has not
run. -/
theorem Status.waiter?_before (h : f.Status past c m) (h' : f.Status (past ++ [a]) c' m')
    (hv : c'.phase.waiter? = some v) :
    c.phase.waiter? = some v ∨ c.phase = .noted v.tags ∧ m'.stage = .reading ∧
      v.number = (f.since past).desk.registry.made := by
  obtain ⟨hp, hst⟩ := h.next h'
  rcases hp with ⟨hp, _⟩ | ⟨x, _, _, ha⟩
  · exact Or.inl (hp ▸ hv)
  · rcases ha.waiter? hv with hw | ⟨hp, _, hn⟩
    · exact Or.inl hw
    · have hstands := h.stands
      rw [hp] at hstands
      have hstage := stage_of_not_running h.call (fun w hw => by rw [hp] at hw; cases hw) hst
      exact Or.inr ⟨hp, hstage.trans hstands.1, hn⟩

theorem not_told_of_new (h' : f.Status (past ++ [a]) c' m')
    (hu : f.Unshared (past ++ [a])) (hst : m'.stage = .reading)
    (hv : c'.phase.waiter? = some v) (hn : v.number = (f.since past).desk.registry.made) :
    ¬ Told (f.since (past ++ [a])).works (f.since (past ++ [a])).desk v := by
  have hposted := (f.sound past).posted
  rintro (hcomp | ⟨p, hp, htok, _⟩)
  · rw [since_concat] at hcomp
    have := hposted.lt_made ((f.since past).step_effect a) hcomp
    omega
  · obtain ⟨k, r, hr, ht⟩ := (f.sound (past ++ [a])).linked.published hp
    have hk := h'.run?_of_token hu hr ((ht.trans htok).trans (h'.token hv))
    rw [hst] at hk
    cases hk

/-- As long as the command has no run, nothing bears its token; then its run may just start. -/
theorem tracked_of_no_run (h : f.Status past c m) (h' : f.Status (past ++ [a]) c' m')
    (hu : f.Unshared past) (hv : c.phase.waiter? = some v) (hrun : m.stage.run? = none)
    (hnot : ¬ Told (f.since past).works (f.since past).desk v) :
    f.Tracked (past ++ [a]) v m'.stage.run? := by
  have htold : ¬ Told (f.since (past ++ [a])).works (f.since (past ++ [a])).desk v := by
    rw [since_concat, h.told_iff hu hv fun k r hk => by rw [hrun] at hk; cases hk]
    exact hnot
  cases hrun' : m'.stage.run? with
  | none => exact htold
  | some n =>
      have hcommand := h'.command
      rw [since_concat] at hcommand
      rcases ((f.since past).step_effect a).run?_before hcommand hrun' with
        ⟨m₀, hm₀, _, hn⟩ | ⟨_, _, r, hr, _, hq, _⟩
      · rw [h.command] at hm₀
        cases hm₀
        rw [hrun] at hn
        cases hn
      · refine ⟨r, by rw [since_concat]; exact hr, fun read _ => iff_of_false htold ?_⟩
        rw [hq]
        exact Bool.false_ne_true

theorem tracked_of_run (h : f.Status past c m) (hu : f.Unshared past)
    (hf : (f.since past).Supplied) (hv : c.phase.waiter? = some v) (hrun : m.stage.run? = some n)
    (ih : f.Tracked past v (some n)) : f.Tracked (past ++ [a]) v (some n) := by
  obtain ⟨r, hr, htold⟩ := ih
  by_cases hs : (f.since past).Stepped a ((f.since past).step a).works n r
  · refine ⟨r.next (f.since past).works, by rw [since_concat]; exact hs.run, fun read hread => ?_⟩
    have hread := hread (Pipeline.Phase.step_ne_queued _)
    obtain ⟨hfol, hread₀⟩ := follows_of_readings hf hr fun _ => hread
    have hsettled : (r.next (f.since past).works).phase.hasSettled v.tags read r.order.amount = _ :=
      Pipeline.Phase.step_hasSettled _ hfol ((f.stocked hf).provided hr)
    show _ ↔ (r.next (f.since past).works).phase.hasSettled v.tags read r.order.amount = true
    rw [since_concat, h.told_step hu hv hrun hs, htold read hread₀, hsettled, Bool.or_eq_true]
  · have hsame : ((f.since past).step a).works.runs[n]? = some r := by
      rcases ((f.since past).step_effect a).run hr with hr | hs'
      · exact hr
      · exact absurd hs' hs
    refine ⟨r, by rw [since_concat]; exact hsame, fun read hread => ?_⟩
    obtain ⟨_, hread₀⟩ := follows_of_readings hf hr hread
    rw [since_concat, h.told_iff hu hv (not_stepped hrun hr hs), htold read hread₀]

theorem tracked_concat (h : f.Status past c m) (h' : f.Status (past ++ [a]) c' m')
    (hu : f.Unshared (past ++ [a])) (hf : (f.since (past ++ [a])).Supplied)
    (ih : c.phase.waiter? = some v → f.Tracked past v m.stage.run?)
    (hv : c'.phase.waiter? = some v) : f.Tracked (past ++ [a]) v m'.stage.run? := by
  rcases h.waiter?_before h' hv with hv₀ | ⟨_, hst, hn⟩
  · have ih := ih hv₀
    cases hrun : m.stage.run? with
    | none =>
        rw [hrun] at ih
        exact tracked_of_no_run h h' hu.of_append hv₀ hrun ih
    | some n =>
        have hstage : m'.stage = m.stage := by
          rcases (h.next h').2 with hst | ⟨_, hadv⟩
          · exact hst
          · exact hadv.of_run? hrun
        rw [hrun] at ih
        rw [hstage, hrun]
        exact tracked_of_run h hu.of_append (supplied_of_append hf) hv₀ hrun ih
  · rw [hst]
    exact not_told_of_new h' hu hst hv hn

theorem tracked (h : f.Status past c m) (hu : f.Unshared past) (hf : (f.since past).Supplied)
    (hv : c.phase.waiter? = some v) : f.Tracked past v m.stage.run? := by
  induction past using List.reverseRecOn generalizing c m with
  | nil =>
      rw [h.arrived] at hv
      cases hv
  | append_singleton past a ih =>
      obtain ⟨c₀, m₀, h₀⟩ := f.status past
      exact tracked_concat h₀ h hu hf (ih h₀ hu.of_append (supplied_of_append hf)) hv

end Flight

end Billing.Service
