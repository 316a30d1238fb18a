import Billing.Proofs.Completion.Ownership

/-!
# What becomes of a call

A call is answered at the desk in few ways. What one move makes of a call is told here for every
move, so that nobody has to look at the other calls that take their turns meanwhile.
-/

namespace Billing.Completion

variable {α : Type}

/-! ## One call -/

/-- Why a call that waited for a value is answered as it is; `late` says when its time is over. -/
inductive Call.Verdict (c : Call α) (r : Registry) (w : Waiter) (value : α) (late : Prop) :
    Outcome α → Prop where
  | interrupted (h : c.interrupted = true) : Verdict c r w value late .interrupted
  | completed (h : w.number ∈ r.completed) : Verdict c r w value late (.completed value)
  | unconfirmed (armed : w.number ∉ r.completed) (h : late) : Verdict c r w value late .unconfirmed

namespace Call

/-- What a call was asked for when it arrived. -/
def asked (c : Call α) : CallContext × Bool × Nat := (c.context, c.completing, c.timeout)

/-- What the turns of a call do not touch. -/
def frame (c : Call α) : (CallContext × Bool × Nat) × Bool := (c.asked, c.interrupted)

variable {c : Call α} {r s : Registry} {w : Waiter} {value : α} {now deadline moment maxWait : Nat}
  {o : Outcome α}

theorem Verdict.mono {p q : Prop} (h : c.Verdict r w value p o) (hpq : p → q) :
    c.Verdict r w value q o := by
  cases h with
  | interrupted h => exact .interrupted h
  | completed h => exact .completed h
  | unconfirmed ha h => exact .unconfirmed ha (hpq h)

theorem frame_start (tags : Except DomainError ControlTagSet) :
    (c.start r now tags).1.frame = c.frame := by
  unfold start
  split
  · split
    · split
      · rfl
      · split <;> rfl
    · rfl
  · rfl

theorem frame_enlist : (c.enlist r now).1.frame = c.frame := by
  unfold enlist
  split
  · dsimp only
    split <;> rfl
  · rfl

theorem frame_poll : (c.poll r now).1.frame = c.frame := by
  unfold poll
  split
  · split
    · rfl
    · split
      · rfl
      · split <;> rfl
  · rfl

theorem frame_conclude (result : Except DomainError (Executed α)) :
    (c.conclude r now maxWait result).1.frame = c.frame := by
  unfold conclude
  split
  · rfl
  · rfl
  · split
    · rfl
    · exact frame_poll
  · rfl

theorem frame_drop : (c.drop r now).1.frame = c.frame := by
  unfold drop
  split <;> rfl

theorem frame_expire : (c.expire r moment).1.frame = c.frame := by
  unfold expire
  split
  · split
    · exact frame_poll
    · rfl
  · rfl

/-! ### Looking around -/

theorem poll_waiting (r : Registry) (now : Nat) (h : c.phase = .waiting w value deadline) :
    ((c.poll r now).1 = c ∧ w.number ∉ r.completed ∧ now < deadline) ∨
      ∃ o, (c.poll r now).1.phase = .ended (.answered (.ok o)) now ∧
        c.Verdict r w value (deadline ≤ now) o := by
  unfold poll
  simp only [h, Registry.state_eq_completed_iff]
  split
  · rename_i hi
    exact Or.inr ⟨_, rfl, .interrupted hi⟩
  · split
    · rename_i hw
      exact Or.inr ⟨_, rfl, .completed hw⟩
    · rename_i hw
      split
      · rename_i hd
        exact Or.inr ⟨_, rfl, .unconfirmed hw hd⟩
      · rename_i hd
        exact Or.inl ⟨rfl, hw, Nat.lt_of_not_le hd⟩

theorem poll_of_deadline? (h : c.phase.deadline? = none) : c.poll r now = (c, r) := by
  unfold poll
  split
  · rename_i hp
    rw [hp] at h
    cases h
  · rfl

theorem expire_of_deadline? (h : c.phase.deadline? = none) : c.expire r moment = (c, r) := by
  unfold expire
  split
  · rename_i hp
    rw [hp] at h
    cases h
  · rfl

/-- What a call becomes when time passes to a moment: it looks around now and, if its deadline lies
before that moment, at its deadline. -/
def round (c : Call α) (r : Registry) (now moment : Nat) : Call α :=
  ((c.poll r now).1.expire r moment).1

theorem frame_round : (c.round r now moment).frame = c.frame := frame_expire.trans frame_poll

theorem round_of_deadline? (h : c.phase.deadline? = none) : c.round r now moment = c := by
  unfold round
  rw [poll_of_deadline? h, expire_of_deadline? h]

theorem round_waiting (r : Registry) (now moment : Nat) (h : c.phase = .waiting w value deadline) :
    (c.round r now moment = c ∧ w.number ∉ r.completed ∧ moment ≤ deadline) ∨
      ∃ o t, (c.round r now moment).phase = .ended (.answered (.ok o)) t ∧
        c.Verdict r w value (deadline ≤ now ∨ deadline < moment) o := by
  unfold round
  rcases poll_waiting r now h with ⟨hc, hw, hd⟩ | ⟨o, ho, hv⟩
  · rw [hc]
    unfold expire
    simp only [h]
    split
    · rename_i hm
      rcases poll_waiting r deadline h with ⟨_, _, hlt⟩ | ⟨o, ho, hv⟩
      · exact absurd hlt (Nat.lt_irrefl _)
      · exact Or.inr ⟨o, deadline, ho, hv.mono fun _ => Or.inr hm⟩
    · rename_i hm
      exact Or.inl ⟨rfl, hw, Nat.le_of_not_lt hm⟩
  · rw [expire_of_deadline? (by rw [ho]; rfl)]
    exact Or.inr ⟨o, now, ho, hv.mono Or.inl⟩

theorem conclude_immediate (r : Registry) (now maxWait : Nat) (value : α)
    (h : c.phase = .running (some w)) :
    (c.conclude r now maxWait (.ok (.immediate value))).1.phase =
        .waiting w value (now + c.patience maxWait) ∨
      ∃ o, (c.conclude r now maxWait (.ok (.immediate value))).1.phase =
          .ended (.answered (.ok o)) now ∧
        c.Verdict r w value (c.patience maxWait = 0) o := by
  unfold conclude
  simp only [h, Executed.immediate]
  have hp : ({ c with phase := .waiting w value (now + c.patience maxWait) } : Call α).phase =
      .waiting w value (now + c.patience maxWait) := rfl
  rcases poll_waiting r now hp with ⟨hc, _, _⟩ | ⟨o, ho, hv⟩
  · rw [hc]
    exact Or.inl rfl
  · refine Or.inr ⟨o, ho, ?_⟩
    cases hv with
    | interrupted hi => exact .interrupted hi
    | completed hw => exact .completed hw
    | unconfirmed hw hl => exact .unconfirmed hw (by omega)

theorem conclude_of_ne_running {result : Except DomainError (Executed α)}
    (h : ∀ waiter, c.phase ≠ .running waiter) : c.conclude r now maxWait result = (c, r) := by
  unfold conclude
  split
  · rename_i hp
    exact absurd hp (h _)
  · rename_i hp
    exact absurd hp (h _)
  · rename_i hp
    exact absurd hp (h _)
  · rfl

/-! ### Turns and the registry -/

theorem Turn.completed_eq {c' : Call α} (h : c.Turn r c' s) : s.completed = r.completed := by
  cases h <;> rfl

theorem Turn.made_le {c' : Call α} (h : c.Turn r c' s) : r.made ≤ s.made := by
  cases h with
  | keep _ _ hm => exact hm
  | enter => exact Nat.le_succ _
  | leave => exact Nat.le_refl _

theorem poll_congr (h : s.completed = r.completed) : (c.poll s now).1 = (c.poll r now).1 := by
  unfold poll
  split
  · simp only [Registry.state_eq_completed_iff, h]
    split
    · rfl
    · split
      · rfl
      · split <;> rfl
  · rfl

theorem expire_congr (h : s.completed = r.completed) :
    (c.expire s moment).1 = (c.expire r moment).1 := by
  unfold expire
  split
  · split
    · exact poll_congr h
    · rfl
  · rfl

end Call

/-! ## One move -/

/-- What a move at a desk can make of the phase of a call. -/
inductive Call.After (d : Desk α) (i : Nat) (c : Call α) : Move α → Phase α → Prop where
  /-- Time does not pass a call that waits with a completed waiter. -/
  | same {m : Move α} (armed : ∀ {moment w value deadline}, m = .pass moment → d.now < moment →
      c.phase = .waiting w value deadline → w.number ∉ d.registry.completed) : After d i c m c.phase
  | noted {tags : ControlTagSet} (before : c.phase = .arrived) (completing : c.completing = true) :
      After d i c (.happening (.start i (.ok tags))) (.noted tags)
  | free {tags : Except DomainError ControlTagSet} (before : c.phase = .arrived)
      (completing : c.completing = false) : After d i c (.happening (.start i tags)) (.running none)
  | enlisted {tags : ControlTagSet} (before : c.phase = .noted tags) :
      After d i c (.happening (.enlist i))
        (.running (some ⟨d.registry.made, c.context.token, tags⟩))
  /-- The call fails before its command has run. -/
  | failed {m : Move α} {e : CallError} {time : Nat}
      (before : c.phase = .arrived ∨ ∃ tags, c.phase = .noted tags) :
      After d i c m (.ended (.answered (.error e)) time)
  | refused {w : Option Waiter} {x : DomainError} {e : CallError} {time : Nat}
      (before : c.phase = .running w) :
      After d i c (.happening (.conclude i (.error x))) (.ended (.answered (.error e)) time)
  /-- The call is answered without a wait, for there is nothing to wait for. -/
  | direct {w : Option Waiter} {x : Executed α} {time : Nat} (before : c.phase = .running w)
      (h : w = none ∨ x.timing ≠ .immediate) :
      After d i c (.happening (.conclude i (.ok x)))
        (.ended (.answered (.ok (.completed x.value))) time)
  | waits {w : Waiter} {value : α} (before : c.phase = .running (some w)) :
      After d i c (.happening (.conclude i (.ok (.immediate value))))
        (.waiting w value (d.now + c.patience d.maxWait))
  | hasty {w : Waiter} {value : α} {o : Outcome α} {time : Nat}
      (before : c.phase = .running (some w))
      (verdict : c.Verdict d.registry w value (c.patience d.maxWait = 0) o) :
      After d i c (.happening (.conclude i (.ok (.immediate value))))
        (.ended (.answered (.ok o)) time)
  | answered {m : Move α} {w : Waiter} {value : α} {deadline : Nat} {o : Outcome α} {time : Nat}
      (before : c.phase = .waiting w value deadline)
      (verdict : c.Verdict d.registry w value
        (deadline ≤ d.now ∨ ∃ moment, m = .pass moment ∧ deadline < moment) o) :
      After d i c m (.ended (.answered (.ok o)) time)
  | dropped {m : Move α} {time : Nat} (before : c.phase.isEnded = false) :
      After d i c m (.ended .dropped time)

theorem Call.After.stay {d : Desk α} {i : Nat} {c : Call α} {x : Happening α} :
    c.After d i (.happening x) c.phase :=
  .same fun hm => nomatch hm

/-- A call that has ended stays as it has ended. -/
theorem Call.After.of_ended {d : Desk α} {i : Nat} {c : Call α} {m : Move α} {p : Phase α}
    {e : Ending α} {t : Nat} (h : c.After d i m p) (he : c.phase = .ended e t) :
    p = .ended e t := by
  cases h with
  | same => exact he
  | failed hb =>
      rcases hb with hb | ⟨_, hb⟩
      · rw [he] at hb
        cases hb
      · rw [he] at hb
        cases hb
  | dropped hb =>
      rw [he] at hb
      cases hb
  | _ hb =>
      rw [he] at hb
      cases hb

/-- A waiter that a call has after a move it had before, or it has been made for the tags that the
call had noted. -/
theorem Call.After.waiter? {d : Desk α} {i : Nat} {c : Call α} {m : Move α} {p : Phase α}
    {w : Waiter} (h : c.After d i m p) (hw : p.waiter? = some w) :
    c.phase.waiter? = some w ∨
      c.phase = .noted w.tags ∧ w.token = c.context.token ∧ w.number = d.registry.made := by
  cases h with
  | same => exact Or.inl hw
  | enlisted hp =>
      cases hw
      exact Or.inr ⟨hp, rfl, rfl⟩
  | waits hp =>
      rw [hp]
      exact Or.inl hw
  | _ => cases hw

namespace Desk

variable {d : Desk α} {i j : Nat} {c : Call α} {f : Call α → Registry → Call α × Registry}

/-! ### Turns at a desk -/

theorem calls_onCall :
    (d.onCall i f).calls[j]? =
      if j = i then d.calls[j]?.map fun c => (f c d.registry).1 else d.calls[j]? := by
  unfold onCall
  cases hc : d.calls[i]? with
  | none =>
      simp only
      split
      · rename_i hj
        rw [hj, hc]
        rfl
      · rfl
  | some c =>
      simp only
      split
      · rename_i hj
        have hi := (List.getElem?_eq_some_iff.mp hc).1
        rw [hj, hc, List.getElem?_set_self hi]
        rfl
      · rename_i hj
        exact List.getElem?_set_ne (Ne.symm hj)

theorem now_onCall : (d.onCall i f).now = d.now := by
  unfold onCall
  split <;> rfl

theorem maxWait_onCall : (d.onCall i f).maxWait = d.maxWait := by
  unfold onCall
  split <;> rfl

theorem completed_onCall (hf : ∀ (c : Call α) r, c.Turn r (f c r).1 (f c r).2) :
    (d.onCall i f).registry.completed = d.registry.completed := by
  unfold onCall
  split
  · rfl
  · exact (hf _ _).completed_eq

theorem made_onCall (hf : ∀ (c : Call α) r, c.Turn r (f c r).1 (f c r).2) :
    d.registry.made ≤ (d.onCall i f).registry.made := by
  unfold onCall
  split
  · exact Nat.le_refl _
  · exact (hf _ _).made_le

/-- What all calls do one after another touches none of these. -/
structure Quiet (d e : Desk α) : Prop where
  now : e.now = d.now
  maxWait : e.maxWait = d.maxWait
  completed : e.registry.completed = d.registry.completed
  made : d.registry.made ≤ e.registry.made

theorem quiet_onCall (hf : ∀ (c : Call α) r, c.Turn r (f c r).1 (f c r).2) :
    d.Quiet (d.onCall i f) :=
  ⟨now_onCall, maxWait_onCall, completed_onCall hf, made_onCall hf⟩

/-- Where turns depend on nothing of the registry but on who has been completed, all calls may as
well take their turns at once. -/
theorem calls_onAllCalls (hf : ∀ (c : Call α) r, c.Turn r (f c r).1 (f c r).2)
    (hg : ∀ (c : Call α) r s, s.completed = r.completed → (f c s).1 = (f c r).1) :
    d.Quiet (d.onAllCalls f) ∧ ∀ j : Nat, (d.onAllCalls f).calls[j]? =
      d.calls[j]?.map fun c => (f c d.registry).1 := by
  have hprefix : ∀ n, d.Quiet ((List.range n).foldl (fun d i => d.onCall i f) d) ∧
      ∀ j : Nat, ((List.range n).foldl (fun d i => d.onCall i f) d).calls[j]? =
        if j < n then d.calls[j]?.map fun c => (f c d.registry).1 else d.calls[j]? := by
    intro n
    induction n with
    | zero => exact ⟨⟨rfl, rfl, rfl, Nat.le_refl _⟩, fun j => rfl⟩
    | succ n ih =>
        rw [List.range_succ, List.foldl_append]
        generalize (List.range n).foldl (fun d i => d.onCall i f) d = e at ih
        obtain ⟨hq, hc⟩ := ih
        have hq' := quiet_onCall (d := e) (i := n) hf
        refine ⟨⟨hq'.now.trans hq.now, hq'.maxWait.trans hq.maxWait,
          hq'.completed.trans hq.completed, Nat.le_trans hq.made hq'.made⟩, fun j => ?_⟩
        show (e.onCall n f).calls[j]? = _
        rw [calls_onCall, hc]
        by_cases hj : j = n
        · subst hj
          rw [if_pos rfl, if_neg (Nat.lt_irrefl _), if_pos (Nat.lt_succ_self _)]
          cases d.calls[j]? with
          | none => rfl
          | some c => exact congrArg some (hg c _ _ hq.completed)
        · rw [if_neg hj]
          by_cases hlt : j < n
          · rw [if_pos hlt, if_pos (Nat.lt_succ_of_lt hlt)]
          · rw [if_neg hlt, if_neg (by omega)]
  obtain ⟨hq, hc⟩ := hprefix d.calls.length
  refine ⟨hq, fun j => (hc j).trans ?_⟩
  split
  · rfl
  · rename_i hj
    rw [List.getElem?_eq_none (Nat.le_of_not_lt hj)]
    rfl

/-- Time that passes lets every call go its round. -/
theorem calls_advance {moment : Nat} (hm : d.now < moment) :
    (d.advance moment).maxWait = d.maxWait ∧
      (d.advance moment).registry.completed = d.registry.completed ∧
      d.registry.made ≤ (d.advance moment).registry.made ∧
      ∀ j : Nat, (d.advance moment).calls[j]? =
        d.calls[j]?.map fun c : Call α => c.round d.registry d.now moment := by
  unfold advance
  rw [if_pos hm]
  obtain ⟨hp, hpc⟩ := calls_onAllCalls (d := d) (f := fun c r => c.poll r d.now)
    (fun _ _ => Call.poll_turn) (fun _ _ _ h => Call.poll_congr h)
  obtain ⟨he, hec⟩ := calls_onAllCalls (d := d.pollAll) (f := fun c r => c.expire r moment)
    (fun _ _ => Call.expire_turn moment) (fun _ _ _ h => Call.expire_congr h)
  refine ⟨he.maxWait.trans hp.maxWait, he.completed.trans hp.completed,
    Nat.le_trans hp.made he.made, fun j => (hec j).trans ?_⟩
  show (d.onAllCalls fun c r => c.poll r d.now).calls[j]?.map _ = _
  rw [hpc, Option.map_map]
  refine congrArg (fun g => d.calls[j]?.map g) (funext fun c => ?_)
  exact Call.expire_congr hp.completed

/-! ### Moves -/

variable {m : Move α} {n : Nat}

theorem quiet_step {x : Happening α} (hx : ∀ t e, x ≠ .event t e) : d.Quiet (d.step x) := by
  cases x with
  | arrive context completing timeout => exact ⟨rfl, rfl, rfl, Nat.le_refl _⟩
  | start i tags => exact quiet_onCall fun _ _ => Call.start_turn tags
  | enlist i => exact quiet_onCall fun _ _ => Call.enlist_turn
  | conclude i result => exact quiet_onCall fun _ _ => Call.conclude_turn _ result
  | poll i => exact quiet_onCall fun _ _ => Call.poll_turn
  | interrupt i =>
      exact quiet_onCall (f := fun c r => ({ c with interrupted := true }, r))
        fun _ _ => .same rfl rfl
  | drop i => exact quiet_onCall fun _ _ => Call.drop_turn
  | event t e => exact absurd rfl (hx t e)

/-- Only events complete waiters, and nobody but the one who is found under their token. -/
theorem mem_completed_step {x : Happening α} :
    n ∈ (d.step x).registry.completed ↔ n ∈ d.registry.completed ∨
      ∃ t e w, x = .event t e ∧ d.registry.find? t = some w ∧
        settles w.tags e = true ∧ n = w.number := by
  by_cases hx : ∃ t e, x = .event t e
  · obtain ⟨t, e, rfl⟩ := hx
    show n ∈ (d.registry.dispatch t e).2.completed ↔ _
    rw [Registry.mem_completed_dispatch]
    constructor
    · rintro (hn | ⟨w, hw, hs, hn⟩)
      · exact Or.inl hn
      · exact Or.inr ⟨t, e, w, rfl, hw, hs, hn⟩
    · rintro (hn | ⟨t, e, w, he, hw, hs, hn⟩)
      · exact Or.inl hn
      · cases he
        exact Or.inr ⟨w, hw, hs, hn⟩
  · have hq : d.Quiet (d.step x) := quiet_step fun t e he => hx ⟨t, e, he⟩
    rw [hq.completed]
    constructor
    · exact Or.inl
    · rintro (hn | ⟨t, e, w, he, _⟩)
      · exact hn
      · exact absurd ⟨t, e, he⟩ hx

theorem made_step {x : Happening α} : d.registry.made ≤ (d.step x).registry.made := by
  by_cases hx : ∃ t e, x = .event t e
  · obtain ⟨t, e, rfl⟩ := hx
    exact Nat.le_of_eq Registry.made_dispatch.symm
  · exact (quiet_step fun t e he => hx ⟨t, e, he⟩).made

theorem now_step (x : Happening α) : (d.step x).now = d.now := by
  by_cases hx : ∃ t e, x = .event t e
  · obtain ⟨t, e, rfl⟩ := hx
    rfl
  · exact (quiet_step fun t e he => hx ⟨t, e, he⟩).now

theorem maxWait_step (x : Happening α) : (d.step x).maxWait = d.maxWait := by
  by_cases hx : ∃ t e, x = .event t e
  · obtain ⟨t, e, rfl⟩ := hx
    rfl
  · exact (quiet_step fun t e he => hx ⟨t, e, he⟩).maxWait

theorem now_advance (moment : Nat) : (d.advance moment).now = max d.now moment := by
  unfold advance
  split
  · rename_i h
    exact (Nat.max_eq_right (Nat.le_of_lt h)).symm
  · rename_i h
    exact (Nat.max_eq_left (Nat.le_of_not_lt h)).symm

theorem completed_advance (moment : Nat) :
    (d.advance moment).registry.completed = d.registry.completed := by
  by_cases h : d.now < moment
  · exact (calls_advance h).2.1
  · rw [advance, if_neg h]

theorem made_advance (moment : Nat) : d.registry.made ≤ (d.advance moment).registry.made := by
  by_cases h : d.now < moment
  · exact (calls_advance h).2.2.1
  · have he : d.advance moment = d := if_neg h
    exact Nat.le_of_eq (congrArg (·.registry.made) he.symm)

theorem maxWait_advance (moment : Nat) : (d.advance moment).maxWait = d.maxWait := by
  by_cases h : d.now < moment
  · exact (calls_advance h).1
  · rw [advance, if_neg h]

theorem length_onCall : (d.onCall i f).calls.length = d.calls.length := by
  unfold onCall
  split
  · rfl
  · exact List.length_set

theorem length_onAllCalls : (d.onAllCalls f).calls.length = d.calls.length := by
  have hall : ∀ is : List Nat,
      (is.foldl (fun d i => d.onCall i f) d).calls.length = d.calls.length := by
    intro is
    induction is generalizing d with
    | nil => rfl
    | cons i is ih => exact ih.trans length_onCall
  exact hall _

theorem length_advance (moment : Nat) : (d.advance moment).calls.length = d.calls.length := by
  unfold advance
  split
  · exact length_onAllCalls.trans length_onAllCalls
  · rfl

theorem length_step {x : Happening α} (hx : x.call?.isSome ∨ ∃ t e, x = .event t e) :
    (d.step x).calls.length = d.calls.length := by
  cases x with
  | arrive => simp [Happening.call?] at hx
  | event t e => rfl
  | _ => exact length_onCall

/-! ### One call and one move -/

theorem after_onCall (hc : d.calls[j]? = some c) {x : Happening α}
    (hx : d.step x = d.onCall i f) (ha : ∀ r, (f c r).1.frame = c.frame)
    (hf : j = i → c.After d j (.happening x) (f c d.registry).1.phase) :
    ∃ c', (d.step x).calls[j]? = some c' ∧ c'.frame = c.frame ∧
      c.After d j (.happening x) c'.phase := by
  rw [hx, calls_onCall, hc]
  by_cases hj : j = i
  · rw [if_pos hj]
    exact ⟨_, rfl, ha _, hf hj⟩
  · rw [if_neg hj]
    exact ⟨c, rfl, rfl, .stay⟩

theorem after_start (tags : Except DomainError ControlTagSet) :
    c.After d i (.happening (.start i tags)) (c.start d.registry d.now tags).1.phase := by
  unfold Call.start
  split
  · rename_i hp
    split
    · rename_i hcomp
      split
      · exact .failed (Or.inl hp)
      · split
        · exact .failed (Or.inl hp)
        · exact .noted hp hcomp
    · rename_i hcomp
      exact .free hp (by simpa using hcomp)
  · exact .stay

theorem after_enlist :
    c.After d i (.happening (.enlist i)) (c.enlist d.registry d.now).1.phase := by
  unfold Call.enlist
  split
  · rename_i tags hp
    dsimp only [Registry.make]
    split
    · exact .failed (Or.inr ⟨tags, hp⟩)
    · exact .enlisted hp
  · exact .stay

theorem after_poll {x : Happening α} :
    c.After d i (.happening x) (c.poll d.registry d.now).1.phase := by
  cases hp : c.phase with
  | waiting w value deadline =>
      rcases Call.poll_waiting d.registry d.now hp with ⟨hc, _⟩ | ⟨o, ho, hv⟩
      · rw [hc]
        exact .stay
      · rw [ho]
        exact .answered hp (hv.mono Or.inl)
  | _ =>
      rw [Call.poll_of_deadline? (by rw [hp]; rfl)]
      exact .stay

theorem after_conclude (result : Except DomainError (Executed α)) :
    c.After d i (.happening (.conclude i result))
      (c.conclude d.registry d.now d.maxWait result).1.phase := by
  cases hp : c.phase with
  | running waiter =>
      cases result with
      | error e =>
          simp only [Call.conclude, hp]
          exact .refused hp
      | ok x =>
          cases waiter with
          | none =>
              simp only [Call.conclude, hp]
              exact .direct hp (Or.inl rfl)
          | some w =>
              obtain ⟨value, timing⟩ := x
              cases timing with
              | deferred effective =>
                  simp only [Call.conclude, hp]
                  exact .direct hp (Or.inr (by simp))
              | immediate =>
                  show c.After d i (.happening (.conclude i (.ok (.immediate value))))
                    (c.conclude d.registry d.now d.maxWait (.ok (.immediate value))).1.phase
                  rcases Call.conclude_immediate d.registry d.now d.maxWait value hp with
                    ho | ⟨o, ho, hv⟩
                  · rw [ho]
                    exact .waits hp
                  · rw [ho]
                    exact .hasty hp hv
  | _ =>
      rw [Call.conclude_of_ne_running (by simp [hp])]
      exact .stay

theorem after_drop {x : Happening α} :
    c.After d i (.happening x) (c.drop d.registry d.now).1.phase := by
  unfold Call.drop
  split
  · exact .stay
  · rename_i he
    exact .dropped (by simpa using he)

theorem after_pass {moment : Nat} :
    c.After d i (.pass moment) (c.round d.registry d.now moment).phase := by
  cases hp : c.phase with
  | waiting w value deadline =>
      rcases Call.round_waiting d.registry d.now moment hp with ⟨hc, hw, _⟩ | ⟨o, t, ho, hv⟩
      · rw [hc]
        refine .same fun _ _ hv => ?_
        rw [hp] at hv
        cases hv
        exact hw
      · rw [ho]
        refine .answered hp (hv.mono ?_)
        rintro (hd | hd)
        · exact Or.inl hd
        · exact Or.inr ⟨moment, rfl, hd⟩
  | _ =>
      rw [Call.round_of_deadline? (by rw [hp]; rfl)]
      refine .same fun _ _ hv => ?_
      rw [hp] at hv
      cases hv

/-- What a move makes of a call that it does not interrupt. -/
theorem move_call (hc : d.calls[j]? = some c) (m : Move α)
    (hm : ∀ i, m ≠ .happening (.interrupt i)) :
    ∃ c', (d.move m).calls[j]? = some c' ∧ c'.frame = c.frame ∧ c.After d j m c'.phase := by
  cases m with
  | happening x =>
      cases x with
      | arrive context completing timeout =>
          exact ⟨c, getElem?_concat_of_some hc, rfl, .stay⟩
      | start i tags =>
          refine after_onCall (f := fun c r => c.start r d.now tags) hc rfl
            (fun _ => Call.frame_start tags) fun hj => ?_
          subst hj
          exact after_start tags
      | enlist i =>
          refine after_onCall (f := fun c r => c.enlist r d.now) hc rfl
            (fun _ => Call.frame_enlist) fun hj => ?_
          subst hj
          exact after_enlist
      | conclude i result =>
          refine after_onCall (f := fun c r => c.conclude r d.now d.maxWait result) hc rfl
            (fun _ => Call.frame_conclude result) fun hj => ?_
          subst hj
          exact after_conclude result
      | poll i =>
          exact after_onCall (f := fun c r => c.poll r d.now) hc rfl (fun _ => Call.frame_poll)
            fun _ => after_poll
      | interrupt i => exact absurd rfl (hm i)
      | drop i =>
          exact after_onCall (f := fun c r => c.drop r d.now) hc rfl (fun _ => Call.frame_drop)
            fun _ => after_drop
      | event t e => exact ⟨c, hc, rfl, .stay⟩
  | pass moment =>
      by_cases hm : d.now < moment
      · obtain ⟨_, _, _, hcalls⟩ := calls_advance hm
        refine ⟨c.round d.registry d.now moment, ?_, Call.frame_round, after_pass⟩
        show (d.advance moment).calls[j]? = _
        rw [hcalls, hc]
        rfl
      · refine ⟨c, ?_, rfl, .same fun he hlt => ?_⟩
        · show (d.advance moment).calls[j]? = _
          rw [advance, if_neg hm]
          exact hc
        · cases he
          exact absurd hlt hm

end Desk

end Billing.Completion
