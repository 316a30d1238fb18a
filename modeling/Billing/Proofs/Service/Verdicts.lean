import Billing.Proofs.Service.Punctual

/-!
# Verdicts

What a call is answered follows from where its own run stands: a call that nobody interrupts, and
that is ready to wait for more than three pauses, is answered as completed once its run has
announced what settles under the noted tags, and as unconfirmed only if the run has ended without
that.
-/

namespace Billing.Service.Flight

open Completion (Call CallResult Phase Waiter settles)
open Pipeline (Run settlesUnder)

variable {f : Flight} {past rest : List Action} {c : Call Subscription} {m : Submitted}
  {v : Waiter} {n : Nat} {r : Run} {value : Subscription} {o : Completion.Outcome Subscription}
  {result : CallResult Subscription}

/-- The service is not shut down, neither before the flight nor on the way. -/
def Undisturbed (f : Flight) : Prop := .shutDown ∉ f.upTo f.after

theorem calm (h : f.Undisturbed) (hpast : f.after = past ++ rest) : (f.since past).Calm := by
  have hopened : f.opened.Calm := ⟨rfl, fun hc => nomatch hc⟩
  refine hopened.steps fun hmem => h ?_
  rw [hpast, upTo_append]
  exact List.mem_append_left _ hmem

/-! ## What an answer tells -/

theorem AnsweredAt.completed {x : Subscription} (h : f.AnsweredAt past c value (.completed x)) :
    x = value ∧ ∃ v, c.phase.waiter? = some v ∧
      v.number ∈ (f.since past).desk.registry.completed := by
  cases h with
  | hasty hb hv =>
      cases hv with
      | completed hn => exact ⟨rfl, _, by rw [hb]; rfl, hn⟩
  | waited hb _ hv =>
      cases hv with
      | completed hn => exact ⟨rfl, _, by rw [hb]; rfl, hn⟩

/-- A call that waits for long enough gives up only if its run has ended and has told it nothing. -/
theorem OnTime.ended {start deadline : Nat} {a : Action} {x : Completion.Move Subscription}
    (ho : f.OnTime past v n start r)
    (hb : Began f.patience (f.since past).time start (.waiting v value deadline))
    (hp : 3 * stepDelay < f.patience) (harmed : v.number ∉ (f.since past).desk.registry.completed)
    (hx : (f.since past).Moves a x)
    (hlate : deadline ≤ (f.since past).desk.now ∨ ∃ moment, x = .pass moment ∧ deadline < moment) :
    r.phase = .ended ∧ ¬ Told (f.since past).works (f.since past).desk v := by
  have hdeadline : deadline = start + f.patience := hb
  have htimed := (f.sound past).timed
  have hnow : (f.since past).desk.now = (f.since past).time := htimed.now
  have hdue : r.phase ≠ .ended → r.due ≤ start + 3 * stepDelay := by
    intro he
    have := ho.due he
    have := Nat.mul_le_mul_left stepDelay r.phase.pausesMade_le
    omega
  rcases hlate with hd | ⟨moment, rfl, hd⟩
  · have hend : r.phase = .ended := by
      refine Decidable.byContradiction fun he => ?_
      have htime : (f.since past).time ≤ r.due := htimed.timely ho.run he
      have := hdue he
      omega
    refine ⟨hend, fun ht => ?_⟩
    have := ho.told hend ht
    omega
  · cases hx with
    | pass hq hpass =>
        have hend : r.phase = .ended := by
          refine Decidable.byContradiction fun he => ?_
          have := hpass ho.run he
          have := hdue he
          omega
        refine ⟨hend, ?_⟩
        rintro (hn | ⟨p, hmem, _⟩)
        · exact harmed hn
        · rw [System.published_of_quiet hq] at hmem
          cases hmem

/-- What is behind the answer of a call that was answered. -/
inductive Verdict (f : Flight) (past : List Action) (v : Waiter) (r : Run) (value : Subscription) :
    Completion.Outcome Subscription → Prop where
  | completed (told : Told (f.since past).works (f.since past).desk v) :
      Verdict f past v r value (.completed value)
  | unconfirmed (ended : r.phase = .ended)
      (told : ¬ Told (f.since past).works (f.since past).desk v) :
      Verdict f past v r value .unconfirmed

theorem AnsweredAt.verdict (h : f.AnsweredAt past c value o) (hst : f.Status past c m)
    (hn : m.stage.run? = some n) (hu : f.Unshared past) (hcalm : c.interrupted = false)
    (hp : 3 * stepDelay < f.patience) : ∃ v r, c.phase.waiter? = some v ∧
      (f.since past).works.runs[n]? = some r ∧ f.Verdict past v r value o := by
  cases h with
  | @hasty w _ hb hv =>
      have hw : c.phase.waiter? = some w := by rw [hb]; rfl
      obtain ⟨r, hr, _⟩ := hst.run hn
      refine ⟨w, r, hw, hr, ?_⟩
      cases hv with
      | interrupted hi =>
          rw [hcalm] at hi
          cases hi
      | completed hc => exact .completed (Or.inl hc)
      | unconfirmed _ hzero =>
          rw [hst.patience] at hzero
          omega
  | @waited w deadline _ _ _ hb hx hv =>
      have hw : c.phase.waiter? = some w := by rw [hb]; rfl
      obtain ⟨start, r, hbegan, ho⟩ := on_time hst hu hw hn
      refine ⟨w, r, hw, ho.run, ?_⟩
      cases hv with
      | interrupted hi =>
          rw [hcalm] at hi
          cases hi
      | completed hc => exact .completed (Or.inl hc)
      | unconfirmed harmed hlate =>
          rw [hb] at hbegan
          obtain ⟨hend, ht⟩ := ho.ended hbegan hp harmed hx hlate
          exact .unconfirmed hend ht

/-! ## The two sets of tags -/

theorem Status.noted (h : f.Status past c m) (hv : c.phase.waiter? = some v) :
    f.notedTags? past = some v.tags := by
  have hstands := h.stands
  cases hp : c.phase with
  | running w =>
      rw [hp] at hv hstands
      cases hv
      exact hstands
  | waiting w value deadline =>
      rw [hp] at hv hstands
      cases hv
      exact hstands.1
  | _ =>
      rw [hp] at hv
      cases hv

/-- A call that has been told has been told of what its own run has read. -/
theorem told_iff_hasSettled (h : f.Status past c m) (hu : f.Unshared past)
    (hf : (f.since past).Supplied) (hv : c.phase.waiter? = some v) (hn : m.stage.run? = some n)
    (hr : (f.since past).works.runs[n]? = some r) :
    r.phase = .queued ∧ ¬ Told (f.since past).works (f.since past).desk v ∨
      ∃ read, f.readTags? past n = some read ∧ r.phase.Follows r.order read ∧
        (Told (f.since past).works (f.since past).desk v ↔
          r.phase.hasSettled v.tags read r.order.amount = true) := by
  have ht := tracked h hu hf hv
  rw [hn] at ht
  obtain ⟨r', hr', ht⟩ := ht
  rw [hr] at hr'
  cases hr'
  rcases (f.readings hf).runs hr with ⟨hq, _⟩ | ⟨hq, read, hread, hfol⟩
  · refine Or.inl ⟨hq, ?_⟩
    rw [ht .empty fun h => absurd hq h, hq]
    exact Bool.false_ne_true
  · exact Or.inr ⟨read, hread, hfol, ht read fun _ => hread⟩

/-- Where the run of a call stands that is answered, by the tags that were noted and read before. -/
structure Decided (f : Flight) (past : List Action) (n : Nat) (value : Subscription)
    (noted read : ControlTagSet) (r : Run) (o : Completion.Outcome Subscription) : Prop where
  ofNoted : f.notedTags? past = some noted
  ofRead : f.readTags? past n = some read
  run : (f.since past).works.runs[n]? = some r
  follows : r.phase.Follows r.order read
  outcome : o = .completed value ∧ r.phase.hasSettled noted read r.order.amount = true ∨
    o = .unconfirmed ∧ settlesUnder noted read r.order.amount = false

theorem Verdict.decided (h : f.Verdict past v r value o) (hst : f.Status past c m)
    (hu : f.Unshared past) (hf : (f.since past).Supplied) (hv : c.phase.waiter? = some v)
    (hn : m.stage.run? = some n) (hr : (f.since past).works.runs[n]? = some r) :
    ∃ read, f.Decided past n value v.tags read r o := by
  have hnoted := hst.noted hv
  rcases told_iff_hasSettled hst hu hf hv hn hr with ⟨hq, hnot⟩ | ⟨read, hread, hfol, ht⟩
  · cases h with
    | completed told => exact absurd told hnot
    | unconfirmed hend =>
        rw [hq] at hend
        cases hend
  · refine ⟨read, hnoted, hread, hr, hfol, ?_⟩
    cases h with
    | completed told => exact Or.inl ⟨rfl, ht.mp told⟩
    | unconfirmed hend hnot =>
        rw [ht, hend] at hnot
        exact Or.inr ⟨rfl, Bool.eq_false_iff.mpr hnot⟩

/-- How a call is answered that nobody interrupts, that bears a token of its own, and that is ready
to wait for long enough. -/
theorem exists_decided (hs : f.Succeeded value n) (ha : f.answer? = some result)
    (hu : f.Unshared f.after) (hf : f.final.Supplied) (hd : f.Undisturbed)
    (hp : 3 * stepDelay < f.patience) : ∃ past rest noted read r o, f.after = past ++ rest ∧
      result = .ok o ∧ f.Decided past n value noted read r o := by
  obtain ⟨past, rest, c, m, o, hpast, hst, hdone, rfl, hans⟩ := exists_answer hs ha
  have hn : m.stage.run? = some n := by rw [hdone]; rfl
  have hu' := hu.before hpast
  have hf' := supplied_before hf hpast
  obtain ⟨v, r, hv, hr, hverdict⟩ := hans.verdict hst hn hu' ((calm hd hpast).calls hst.call) hp
  obtain ⟨read, hdec⟩ := hverdict.decided hst hu' hf' hv hn hr
  exact ⟨past, rest, v.tags, read, r, o, hpast, rfl, hdec⟩

end Billing.Service.Flight
