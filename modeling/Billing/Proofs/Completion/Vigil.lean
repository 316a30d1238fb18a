import Billing.Proofs.Completion.Chronicle

/-!
# How long a call waits

A call whose command has taken effect at once waits until it is interrupted, its billing settles, or
its time is over, whichever comes first. What it is told before it begins to wait counts as if it
were told then.
-/

namespace Billing.Completion

variable {α : Type}

/-! ## Races -/

/-- What can end a wait, and when. -/
structure Race where
  deadline : Nat
  interrupted : Option Nat
  settled : Option Nat

namespace Race

/-- The earliest of these moments. -/
def last (r : Race) : Nat := (r.interrupted.toList ++ r.settled.toList).foldl min r.deadline

/-- An interruption wins every tie, and a settlement a tie with the deadline. -/
def outcome (r : Race) (value : α) : Outcome α :=
  if r.interrupted = some r.last then .interrupted
  else if r.settled = some r.last then .completed value
  else .unconfirmed

variable {r : Race} {t : Nat}

theorem le_last (hd : t ≤ r.deadline) (hi : ∀ u, r.interrupted = some u → t ≤ u)
    (hs : ∀ u, r.settled = some u → t ≤ u) : t ≤ r.last := by
  obtain ⟨d, i, s⟩ := r
  cases i with
  | none =>
      cases s with
      | none => exact hd
      | some u => exact Nat.le_min.mpr ⟨hd, hs u rfl⟩
  | some v =>
      have hv : t ≤ min d v := Nat.le_min.mpr ⟨hd, hi v rfl⟩
      cases s with
      | none => exact hv
      | some u => exact Nat.le_min.mpr ⟨hv, hs u rfl⟩

theorem won_by_interruption (value : α) (h : r.interrupted = some t) (hd : t ≤ r.deadline)
    (hs : ∀ u, r.settled = some u → t ≤ u) : r.last = t ∧ r.outcome value = .interrupted := by
  have hlast : r.last = t := by
    obtain ⟨d, i, s⟩ := r
    cases s <;> simp_all [last]
  exact ⟨hlast, by simp [outcome, h, hlast]⟩

theorem won_by_settlement (value : α) (h : r.settled = some t) (hd : t ≤ r.deadline)
    (hi : ∀ u, r.interrupted = some u → t < u) :
    r.last = t ∧ r.outcome value = .completed value := by
  have hlast : r.last = t := by
    obtain ⟨d, i, s⟩ := r
    cases i with
    | none => simp_all [last]
    | some u =>
        have := hi u rfl
        simp_all [last]
        omega
  have hne : r.interrupted ≠ some t := fun he => Nat.lt_irrefl _ (hi t he)
  exact ⟨hlast, by simp [outcome, h, hlast, hne]⟩

theorem won_by_nobody (value : α) (hi : ∀ u, r.interrupted = some u → r.deadline < u)
    (hs : ∀ u, r.settled = some u → r.deadline < u) :
    r.last = r.deadline ∧ r.outcome value = .unconfirmed := by
  have hlast : r.last = r.deadline := by
    obtain ⟨d, i, s⟩ := r
    cases i <;> cases s <;> simp_all [last] <;> omega
  have hi' : r.interrupted ≠ some r.deadline := fun he => Nat.lt_irrefl _ (hi _ he)
  have hs' : r.settled ≠ some r.deadline := fun he => Nat.lt_irrefl _ (hs _ he)
  exact ⟨hlast, by simp [outcome, hlast, hi', hs']⟩

end Race

/-! ## Numbers of waiters -/

/-- Whoever is registered or has been completed is one of the waiters that have been made. -/
structure Registry.Numbered (r : Registry) : Prop where
  registered : ∀ k w, r.find? k = some w → w.number < r.made
  completed : ∀ n ∈ r.completed, n < r.made

namespace Desk

variable {r₀ : Registry} {d : Desk α} {i : Nat} {c : Call α} {w : Waiter} {m : Move α}
  {ms : List (Move α)} {x : Happening α}

theorem Owned.move (h : Owned r₀ d) (m : Move α) : Owned r₀ (d.move m) := h.run [m]

theorem made_move (m : Move α) : d.registry.made ≤ (d.move m).registry.made := by
  cases m with
  | happening x => exact made_step
  | pass moment => exact made_advance moment

theorem Owned.registered_lt_made (h : Owned r₀ d) (hr : r₀.Numbered)
    (hm : r₀.made ≤ d.registry.made) {k : CorrelationToken} (hw : d.registry.find? k = some w) :
    w.number < d.registry.made := by
  rcases h.find?_eq_some_iff.mp hw with hw | ⟨_, i, hi⟩
  · exact Nat.lt_of_lt_of_le (hr.registered k w hw) hm
  · exact h.number hi

theorem Owned.completed_lt_made (h : Owned r₀ d) (hr : r₀.Numbered)
    (hm : r₀.made ≤ d.registry.made) (hd : ∀ n ∈ d.registry.completed, n < d.registry.made)
    (m : Move α) : ∀ n ∈ (d.move m).registry.completed, n < (d.move m).registry.made := by
  intro n hn
  refine Nat.lt_of_lt_of_le ?_ (made_move m)
  cases m with
  | happening x =>
      rcases mem_completed_step.mp hn with hn | ⟨t, e, v, _, hv, _, rfl⟩
      · exact hd n hn
      · exact h.registered_lt_made hr hm hv
  | pass moment =>
      have hn : n ∈ (d.advance moment).registry.completed := hn
      rw [completed_advance] at hn
      exact hd n hn

theorem Owned.numbered_run (h : Owned r₀ d) (hr : r₀.Numbered) (hm : r₀.made ≤ d.registry.made)
    (hd : ∀ n ∈ d.registry.completed, n < d.registry.made) (ms : List (Move α)) :
    r₀.made ≤ (d.run ms).registry.made ∧
      ∀ n ∈ (d.run ms).registry.completed, n < (d.run ms).registry.made := by
  induction ms generalizing d with
  | nil => exact ⟨hm, hd⟩
  | cons m ms ih =>
      exact ih (h.move m) (Nat.le_trans hm (made_move m)) (h.completed_lt_made hr hm hd m)

theorem maxWait_run (d : Desk α) (ms : List (Move α)) : (d.run ms).maxWait = d.maxWait := by
  induction ms generalizing d with
  | nil => rfl
  | cons m ms ih =>
      refine (ih (d.move m)).trans ?_
      cases m with
      | happening x => exact maxWait_step x
      | pass moment => exact maxWait_advance moment

/-! ## A call with a waiter -/

/-- A call with a waiter that nobody from before the desk opened can be taken for. -/
structure Attends (r₀ : Registry) (d : Desk α) (i : Nat) (c : Call α) (w : Waiter) : Prop where
  owned : Owned r₀ d
  found : d.calls[i]? = some c
  holds : c.phase.waiter? = some w
  apart : ∀ k v, r₀.find? k = some v → v.number ≠ w.number

/-- A waiter is completed by what tells its call so, and by nothing else. -/
theorem Attends.mem_completed_step (h : Attends r₀ d i c w) :
    w.number ∈ (d.step x).registry.completed ↔
      w.number ∈ d.registry.completed ∨ x.signal? i w = some .settlement := by
  rw [Desk.mem_completed_step]
  refine or_congr_right ?_
  constructor
  · rintro ⟨t, e, v, rfl, hv, hs, hn⟩
    rcases h.owned.find?_eq_some_iff.mp hv with hv | ⟨ht, j, hj⟩
    · exact absurd hn.symm (h.apart t v hv)
    · cases h.owned.apart hj ⟨c, h.found, h.holds⟩ (Or.inr hn.symm)
      cases hj.unique ⟨c, h.found, h.holds⟩
      simp [Happening.signal?, ht, hs]
  · intro hx
    cases x with
    | event t e =>
        have hx : t = w.token ∧ settles w.tags e = true := by simpa [Happening.signal?] using hx
        have hw := h.owned.find?_of_holds ⟨c, h.found, h.holds⟩
        exact ⟨t, e, w, rfl, by rw [hx.1]; exact hw, hx.2, rfl⟩
    | interrupt j =>
        simp only [Happening.signal?] at hx
        split at hx <;> cases hx
    | _ => cases hx

/-! ### Turns -/

/-- A call after something has happened at which it does not look around. -/
def hear (c : Call α) (i : Nat) (w : Waiter) (x : Happening α) : Call α :=
  { c with interrupted := c.interrupted || x.signal? i w == some .interruption }

theorem hear_eq_self (h : x.signal? i w ≠ some .interruption) : hear c i w x = c := by
  have hb : (x.signal? i w == some .interruption) = false := by simpa using h
  simp [hear, hb]

theorem Call.start_of_waiter (h : c.phase.waiter? = some w) {r : Registry} {now : Nat}
    (tags : Except DomainError ControlTagSet) : c.start r now tags = (c, r) := by
  unfold Call.start
  split
  · rename_i hp
    rw [hp] at h
    cases h
  · rfl

theorem Call.enlist_of_waiter (h : c.phase.waiter? = some w) {r : Registry} {now : Nat} :
    c.enlist r now = (c, r) := by
  unfold Call.enlist
  split
  · rename_i hp
    rw [hp] at h
    cases h
  · rfl

/-- Whatever happens, a call with a waiter that does not look around and is not dropped does nothing
but note an interruption. -/
theorem calls_step_of_not_looks (hc : d.calls[i]? = some c) (hw : c.phase.waiter? = some w)
    (hlook : x.looks i = false) (hdrop : x ≠ .drop i) :
    (d.step x).calls[i]? = some (hear c i w x) := by
  cases x with
  | arrive context completing timeout =>
      rw [hear_eq_self (by simp [Happening.signal?])]
      exact getElem?_concat_of_some hc
  | start j tags =>
      rw [hear_eq_self (by simp [Happening.signal?])]
      refine calls_onCall.trans ?_
      split
      · rw [hc, Option.map_some, Call.start_of_waiter hw]
      · exact hc
  | enlist j =>
      rw [hear_eq_self (by simp [Happening.signal?])]
      refine calls_onCall.trans ?_
      split
      · rw [hc, Option.map_some, Call.enlist_of_waiter hw]
      · exact hc
  | conclude j result =>
      rw [hear_eq_self (by simp [Happening.signal?])]
      have hj : i ≠ j := fun he => by simp [Happening.looks, he] at hlook
      exact (calls_onCall.trans (if_neg hj)).trans hc
  | poll j =>
      rw [hear_eq_self (by simp [Happening.signal?])]
      have hj : i ≠ j := fun he => by simp [Happening.looks, he] at hlook
      exact (calls_onCall.trans (if_neg hj)).trans hc
  | interrupt j =>
      refine calls_onCall.trans ?_
      split
      · rename_i hj
        rw [hc]
        simp [hear, Happening.signal?, hj]
      · rename_i hj
        rw [hear_eq_self (by simp [Happening.signal?, Ne.symm hj])]
        exact hc
  | drop j =>
      rw [hear_eq_self (by simp [Happening.signal?])]
      have hj : i ≠ j := fun he => hdrop (by rw [he])
      exact (calls_onCall.trans (if_neg hj)).trans hc
  | event t e =>
      rw [hear_eq_self (by simp only [Happening.signal?]; split <;> simp)]
      exact hc

theorem Attends.hear (h : Attends r₀ d i c w) (hlook : x.looks i = false) (hdrop : x ≠ .drop i) :
    Attends r₀ (d.step x) i (hear c i w x) w where
  owned := h.owned.step x
  found := calls_step_of_not_looks h.found h.holds hlook hdrop
  holds := h.holds
  apart := h.apart

/-! ### What can still end the wait -/

/-- What can end the wait of a call from now on in the course of moves, if it begins at some moment
and ends at its deadline. -/
def race (d : Desk α) (i : Nat) (c : Call α) (w : Waiter) (start deadline : Nat)
    (ms : List (Move α)) : Race where
  deadline := deadline
  interrupted := (known? c.interrupted d.now
    (firstTime? .interruption (signals i w (chronicle d.now ms)))).map (max start)
  settled := (known? (decide (w.number ∈ d.registry.completed)) d.now
    (firstTime? .settlement (signals i w (chronicle d.now ms)))).map (max start)

variable {start deadline : Nat} {value : α}

theorem Attends.race_step (h : Attends r₀ d i c w) (x : Happening α) (start deadline : Nat)
    (ms : List (Move α)) :
    (d.step x).race i (Desk.hear c i w x) w start deadline ms =
      d.race i c w start deadline (.happening x :: ms) := by
  have hdone : decide (w.number ∈ (d.step x).registry.completed) =
      (decide (w.number ∈ d.registry.completed) || x.signal? i w == some .settlement) := by
    rw [Bool.eq_iff_iff]
    simp [h.mem_completed_step]
  unfold race
  rw [now_step, hdone, Desk.hear, known?_signals, known?_signals]
  rfl

theorem le_of_known? {flag : Bool} {now t : Nat} {s : Signal} {ms : List (Move α)}
    (h : (known? flag now (firstTime? s (signals i w (chronicle now ms)))).map (max start) =
      some t) : now ≤ t := by
  obtain ⟨u, hu, rfl⟩ := Option.map_eq_some_iff.mp h
  refine Nat.le_trans ?_ (Nat.le_max_right _ _)
  cases flag with
  | true =>
      cases hu
      exact Nat.le_refl _
  | false => exact le_of_firstTime? hu

theorem lt_of_known? {flag : Bool} {now t : Nat} {s : Signal} {xs : List (Nat × Happening α)}
    (hflag : flag = false) (hlater : ∀ u, firstTime? s (signals i w xs) = some u → deadline < u)
    (h : (known? flag now (firstTime? s (signals i w xs))).map (max start) = some t) :
    deadline < t := by
  obtain ⟨u, hu, rfl⟩ := Option.map_eq_some_iff.mp h
  subst hflag
  exact Nat.lt_of_lt_of_le (hlater u hu) (Nat.le_max_right _ _)

/-- A call that looks around, and is told nothing more at that moment, ends if the race is over. -/
theorem poll_race (i : Nat) (hp : c.phase = .waiting w value deadline) (hstart : start ≤ d.now)
    (hd : d.now ≤ deadline)
    (hlater : ∀ s t, firstTime? s (signals i w (chronicle d.now ms)) = some t → d.now < t) :
    ((c.poll d.registry d.now).1 = c ∧ c.interrupted = false ∧ w.number ∉ d.registry.completed ∧
        d.now < deadline) ∨
      (c.poll d.registry d.now).1.phase = .ended
          (.answered (.ok ((d.race i c w start deadline ms).outcome value))) d.now ∧
        (d.race i c w start deadline ms).last = d.now := by
  cases hi : c.interrupted with
  | true =>
      have hr : (d.race i c w start deadline ms).interrupted = some d.now := by
        simp [race, known?, hi, hstart]
      obtain ⟨hlast, ho⟩ := Race.won_by_interruption value hr hd fun u hu =>
        le_of_known? hu
      refine Or.inr ⟨?_, hlast⟩
      rw [ho]
      simp [Call.poll, hp, hi, Call.answer, Call.leave]
  | false =>
      have hnot : ∀ u, (d.race i c w start deadline ms).interrupted = some u → d.now < u := by
        intro u hu
        exact lt_of_known? hi (hlater _) hu
      by_cases hw : w.number ∈ d.registry.completed
      · have hr : (d.race i c w start deadline ms).settled = some d.now := by
          simp [race, known?, hw, hstart]
        obtain ⟨hlast, ho⟩ := Race.won_by_settlement value hr hd hnot
        refine Or.inr ⟨?_, hlast⟩
        rw [ho]
        simp [Call.poll, hp, hi, Call.answer, Call.leave, Registry.state_eq_completed_iff, hw]
      · by_cases hlt : d.now < deadline
        · refine Or.inl ⟨?_, rfl, hw, hlt⟩
          simp [Call.poll, hp, hi, Registry.state_eq_completed_iff, hw, Nat.not_le.mpr hlt]
        · have he : deadline = d.now := Nat.le_antisymm (Nat.le_of_not_lt hlt) hd
          have hsettled : ∀ u, (d.race i c w start deadline ms).settled = some u → d.now < u := by
            intro u hu
            exact lt_of_known? (by simpa using hw) (hlater _) hu
          obtain ⟨hlast, ho⟩ := Race.won_by_nobody value
            (fun u hu => he ▸ hnot u hu) (fun u hu => he ▸ hsettled u hu)
          refine Or.inr ⟨?_, hlast.trans he⟩
          rw [ho]
          simp [Call.poll, hp, hi, Call.answer, Call.leave, Registry.state_eq_completed_iff, hw, he]

/-! ### Runs -/

/-- Whatever comes, a call that has ended has ended. -/
theorem ended_run {e : Ending α} {t : Nat} (hc : d.calls[i]? = some c)
    (he : c.phase = .ended e t) (ms : List (Move α)) :
    ∃ c', (d.run ms).calls[i]? = some c' ∧ c'.phase = .ended e t := by
  induction ms generalizing d c with
  | nil => exact ⟨c, hc, he⟩
  | cons m ms ih =>
      suffices h : ∃ c', (d.move m).calls[i]? = some c' ∧ c'.phase = .ended e t by
        obtain ⟨c', hc', he'⟩ := h
        exact ih hc' he'
      by_cases hm : ∃ j, m = .happening (.interrupt j)
      · obtain ⟨j, rfl⟩ := hm
        show ∃ c', (d.onCall j fun c r =>
          ({ c with interrupted := true }, r)).calls[i]? = some c' ∧ _
        rw [calls_onCall, hc]
        split
        · exact ⟨_, rfl, he⟩
        · exact ⟨_, rfl, he⟩
      · obtain ⟨c', hc', _, hafter⟩ := move_call hc m fun j hj => hm ⟨j, hj⟩
        exact ⟨c', hc', hafter.of_ended he⟩

/-- How a wait stands in the light of a race: it goes on, or it ended as the race did. -/
def Decided (d : Desk α) (i : Nat) (w : Waiter) (value : α) (r : Race) : Prop :=
  ∃ c, d.calls[i]? = some c ∧
    (c.phase = .waiting w value r.deadline ∧ d.now ≤ r.last ∨
      c.phase = .ended (.answered (.ok (r.outcome value))) r.last ∧ r.last ≤ d.now)

theorem decided_of_ended {r : Race} (hc : d.calls[i]? = some c)
    (he : c.phase = .ended (.answered (.ok (r.outcome value))) r.last) (hr : r.last ≤ d.now)
    (ms : List (Move α)) : (d.run ms).Decided i w value r := by
  obtain ⟨c', hc', he'⟩ := ended_run hc he ms
  refine ⟨c', hc', Or.inr ⟨he', Nat.le_trans hr ?_⟩⟩
  rw [now_run]
  exact le_timeAfter

theorem signals_cons_of_none {now : Nat} {xs : List (Nat × Happening α)}
    (h : x.signal? i w = none) : signals i w ((now, x) :: xs) = signals i w xs := by
  simp [signals, h]

theorem signal?_of_looks (h : x.looks i = true) : x.signal? i w = none := by
  cases x <;> simp_all [Happening.looks, Happening.signal?]

/-- Time that passes a call that nothing can end before its deadline. -/
theorem calls_pass (hc : d.calls[i]? = some c) (hp : c.phase = .waiting w value deadline)
    {moment : Nat} (hm : d.now < moment) (hpoll : (c.poll d.registry d.now).1 = c)
    (hi : c.interrupted = false) (hw : w.number ∉ d.registry.completed) :
    ∃ c', (d.advance moment).calls[i]? = some c' ∧
      (c' = c ∧ moment ≤ deadline ∨
        c'.phase = .ended (.answered (.ok .unconfirmed)) deadline ∧ deadline < moment) := by
  obtain ⟨_, _, _, hcalls⟩ := calls_advance hm
  refine ⟨c.round d.registry d.now moment, by rw [hcalls, hc]; rfl, ?_⟩
  unfold Call.round
  rw [hpoll]
  unfold Call.expire
  simp only [hp]
  split
  · rename_i hd
    refine Or.inr ⟨?_, hd⟩
    simp [Call.poll, hp, hi, Registry.state_eq_completed_iff, hw, Call.answer, Call.leave]
  · rename_i hd
    exact Or.inl ⟨rfl, Nat.le_of_not_lt hd⟩

/-- A call waits on after a move, and the race from there is the race from before. -/
structure Waits (r₀ : Registry) (d : Desk α) (i : Nat) (w : Waiter) (value : α) (start : Nat)
    (r : Race) (ms : List (Move α)) (c : Call α) : Prop where
  attends : Attends r₀ d i c w
  phase : c.phase = .waiting w value r.deadline
  began : start ≤ d.now
  inTime : d.now ≤ r.deadline
  race : d.race i c w start r.deadline ms = r

variable {r : Race}

theorem Waits.poll (h : Waits r₀ d i w value start r ms c)
    (hlater : ∀ s t, firstTime? s (signals i w (chronicle d.now ms)) = some t → d.now < t) :
    ((c.poll d.registry d.now).1 = c ∧ c.interrupted = false ∧ w.number ∉ d.registry.completed ∧
        d.now < r.deadline) ∨
      (c.poll d.registry d.now).1.phase = .ended (.answered (.ok (r.outcome value))) r.last ∧
        r.last = d.now := by
  rcases poll_race i h.phase h.began h.inTime hlater with hsame | ⟨he, hlast⟩
  · exact Or.inl hsame
  · rw [h.race] at he hlast
    exact Or.inr ⟨he.trans (by rw [hlast]), hlast⟩

/-- What a call is told when it does not look around becomes part of what it knows. -/
theorem Waits.hear (h : Waits r₀ d i w value start r (.happening x :: ms) c)
    (hlook : x.looks i = false) (hdrop : x ≠ .drop i) :
    Waits r₀ (d.step x) i w value start r ms (hear c i w x) where
  attends := h.attends.hear hlook hdrop
  phase := h.phase
  began := by rw [now_step]; exact h.began
  inTime := by rw [now_step]; exact h.inTime
  race := (h.attends.race_step x start r.deadline ms).trans h.race

theorem Waits.look (h : Waits r₀ d i w value start r (.happening x :: ms) c)
    (hlook : x.looks i = true) (hseen : Seen i w (chronicle d.now (.happening x :: ms))) :
    Waits r₀ (d.step x) i w value start r ms c ∨
      ∃ c', (d.step x).calls[i]? = some c' ∧
        c'.phase = .ended (.answered (.ok (r.outcome value))) r.last ∧ r.last = d.now := by
  have hnone : x.signal? i w = none := signal?_of_looks hlook
  have hself : Desk.hear c i w x = c := hear_eq_self (by rw [hnone]; simp)
  have hkept : (d.step x).calls[i]? = some c → Waits r₀ (d.step x) i w value start r ms c := by
    intro hc
    refine ⟨⟨h.attends.owned.step x, hc, h.attends.holds, h.attends.apart⟩, h.phase, ?_, ?_, ?_⟩
    · rw [now_step]
      exact h.began
    · rw [now_step]
      exact h.inTime
    · have := (h.attends.race_step x start r.deadline ms).trans h.race
      rwa [hself] at this
  cases x with
  | poll j =>
      have hj : i = j := by simpa [Happening.looks, eq_comm] using hlook
      subst hj
      have hc : (d.step (.poll i)).calls[i]? = some (c.poll d.registry d.now).1 := by
        refine calls_onCall.trans ?_
        rw [if_pos rfl, h.attends.found]
        rfl
      have hlater : ∀ s t, firstTime? s
          (signals i w (chronicle d.now (.happening (.poll i) :: ms))) = some t → d.now < t := by
        intro s t ht
        rw [chronicle, signals_cons_of_none hnone] at ht
        exact hseen.lt_of_firstTime? hlook ht
      rcases h.poll hlater with ⟨hsame, _⟩ | hended
      · rw [hsame] at hc
        exact Or.inl (hkept hc)
      · exact Or.inr ⟨_, hc, hended⟩
  | conclude j result =>
      have hj : i = j := by simpa [Happening.looks, eq_comm] using hlook
      subst hj
      refine Or.inl (hkept (calls_onCall.trans ?_))
      rw [if_pos rfl, h.attends.found, Option.map_some,
        Call.conclude_of_ne_running (by simp [h.phase])]
  | _ => cases hlook

/-- Before time passes the call looks around; whatever it is told later comes after its deadline
if that lies before the moment. -/
theorem Waits.pass {moment : Nat} (h : Waits r₀ d i w value start r (.pass moment :: ms) c) :
    Waits r₀ (d.advance moment) i w value start r ms c ∨
      ∃ c', (d.advance moment).calls[i]? = some c' ∧
        c'.phase = .ended (.answered (.ok (r.outcome value))) r.last ∧
        r.last ≤ max d.now moment := by
  have hlater : ∀ s t, firstTime? s (signals i w (chronicle d.now (.pass moment :: ms))) = some t →
      max d.now moment ≤ t := by
    intro s t ht
    have ht : firstTime? s (signals i w (chronicle (max d.now moment) ms)) = some t := ht
    exact le_of_firstTime? ht
  by_cases hm : d.now < moment
  · have hmax : max d.now moment = moment := Nat.max_eq_right (Nat.le_of_lt hm)
    rw [hmax] at hlater
    rcases h.poll fun s t ht => Nat.lt_of_lt_of_le hm (hlater s t ht) with
      ⟨hpoll, hi, hw, _⟩ | ⟨he, hlast⟩
    · obtain ⟨c', hc', hcase⟩ := calls_pass h.attends.found h.phase hm hpoll hi hw
      rcases hcase with ⟨rfl, hmd⟩ | ⟨he, hmd⟩
      · refine Or.inl ⟨⟨h.attends.owned.advance moment, hc', h.attends.holds, h.attends.apart⟩,
          h.phase, ?_, ?_, ?_⟩
        · rw [now_advance, hmax]
          exact Nat.le_trans h.began (Nat.le_of_lt hm)
        · rw [now_advance, hmax]
          exact hmd
        · -- Nothing had been told before time passed.
          refine Eq.trans ?_ h.race
          simp only [Desk.race, now_advance, completed_advance, hi, hw, chronicle, known?]
          rfl
      · obtain ⟨hlast, ho⟩ := Race.won_by_nobody (r := r) value
          (fun u hu => by
            rw [← h.race] at hu
            exact lt_of_known? hi (fun v hv => Nat.lt_of_lt_of_le hmd (hlater _ v hv)) hu)
          (fun u hu => by
            rw [← h.race] at hu
            exact lt_of_known? (by simpa using hw)
              (fun v hv => Nat.lt_of_lt_of_le hmd (hlater _ v hv)) hu)
        refine Or.inr ⟨c', hc', by rw [he, ho, hlast], ?_⟩
        rw [hlast, hmax]
        exact Nat.le_of_lt hmd
    · obtain ⟨_, _, _, hcalls⟩ := calls_advance hm
      refine Or.inr ⟨c.round d.registry d.now moment, by rw [hcalls, h.attends.found]; rfl, ?_, ?_⟩
      · rw [Call.round, Call.expire_of_deadline? (by rw [he]; rfl)]
        exact he
      · rw [hlast]
        exact Nat.le_max_left _ _
  · have hsame : d.advance moment = d := if_neg hm
    rw [hsame]
    refine Or.inl ⟨h.attends, h.phase, h.began, h.inTime, Eq.trans ?_ h.race⟩
    simp only [Desk.race, chronicle, Nat.max_eq_left (Nat.le_of_not_lt hm)]

/-- A wait is decided by its race. The induction carries that the race from here on is the race
from the start: what has come of it is known to the call, which looks around before time passes. -/
theorem Waits.run (h : Waits r₀ d i w value start r ms c)
    (hdrop : ∀ m ∈ ms, m ≠ .happening (.drop i)) (hseen : Seen i w (chronicle d.now ms)) :
    (d.run ms).Decided i w value r := by
  induction ms generalizing d c with
  | nil =>
      refine ⟨c, h.attends.found, Or.inl ⟨h.phase, Race.le_last h.inTime ?_ ?_⟩⟩
      · intro u hu
        rw [← h.race] at hu
        exact le_of_known? hu
      · intro u hu
        rw [← h.race] at hu
        exact le_of_known? hu
  | cons m ms ih =>
      have hdrop' : ∀ m ∈ ms, m ≠ .happening (.drop i) := fun m hm =>
        hdrop m (List.mem_cons_of_mem _ hm)
      cases m with
      | happening x =>
          have hx : x ≠ .drop i := fun he => hdrop _ List.mem_cons_self (by rw [he])
          have hseen' : Seen i w (chronicle (d.step x).now ms) := by
            rw [now_step]
            exact hseen.tail
          cases hlook : x.looks i with
          | true =>
              rcases h.look hlook hseen with h | ⟨c', hc', he, hlast⟩
              · exact ih h hdrop' hseen'
              · refine decided_of_ended (d := d.step x) hc' he ?_ ms
                rw [now_step]
                exact Nat.le_of_eq hlast
          | false => exact ih (h.hear hlook hx) hdrop' hseen'
      | pass moment =>
          rcases h.pass with h | ⟨c', hc', he, hlast⟩
          · refine ih (d := d.advance moment) h hdrop' ?_
            rw [now_advance]
            exact hseen
          · refine decided_of_ended (d := d.advance moment) hc' he ?_ ms
            rw [now_advance]
            exact hlast

end Desk

end Billing.Completion
