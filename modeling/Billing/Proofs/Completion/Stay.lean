import Billing.Proofs.Completion.Vigil

/-!
# The stay of a call at the desk

A call that has noted the tags of its account registers a waiter, its command is carried out, and
the call waits if the command has taken effect at once. What becomes of it depends on nothing but
when the command came to its end, what it did, how long the call can wait, and what the call was
told at what times.
-/

namespace Billing.Completion

variable {α : Type}

/-! ## While the command runs -/

namespace Desk

variable {r₀ : Registry} {d : Desk α} {i start deadline : Nat} {c : Call α} {w : Waiter}
  {m : Move α} {ms : List (Move α)} {x : Happening α}

/-- A call whose command runs neither looks around nor leaves; what it is told counts as told when
it begins to wait. -/
theorem running_move (deadline : Nat) (h : Attends r₀ d i c w) (hp : c.phase = .running (some w))
    (hdrop : m ≠ .happening (.drop i)) (hend : ∀ result, m ≠ .happening (.conclude i result))
    (hstart : m.timeFrom d.now ≤ start) :
    ∃ c', Attends r₀ (d.move m) i c' w ∧ c'.phase = .running (some w) ∧ c'.asked = c.asked ∧
      ∀ ns, (d.move m).race i c' w start deadline ns = d.race i c w start deadline (m :: ns) := by
  cases m with
  | happening x =>
      have hx : x ≠ .drop i := fun he => hdrop (by rw [he])
      cases hlook : x.looks i with
      | false => exact ⟨hear c i w x, h.hear hlook hx, hp, rfl, fun ns =>
          h.race_step x start deadline ns⟩
      | true =>
          cases x with
          | poll j =>
              have hj : i = j := by simpa [Happening.looks, eq_comm] using hlook
              subst hj
              have hc : (d.step (.poll i)).calls[i]? = some c := by
                refine calls_onCall.trans ?_
                rw [if_pos rfl, h.found, Option.map_some, Call.poll_of_deadline? (by rw [hp]; rfl)]
              have hself : Desk.hear c i w (.poll i) = c :=
                hear_eq_self (by simp [Happening.signal?])
              refine ⟨c, ⟨h.owned.move (.happening (.poll i)), hc, h.holds, h.apart⟩, hp, rfl,
                fun ns => ?_⟩
              have hrace := h.race_step (.poll i) start deadline ns
              rwa [hself] at hrace
          | conclude j result =>
              have hj : i = j := by simpa [Happening.looks, eq_comm] using hlook
              exact absurd (by rw [hj]) (hend result)
          | _ => cases hlook
  | pass moment =>
      by_cases hm : d.now < moment
      · obtain ⟨_, _, _, hcalls⟩ := calls_advance hm
        have hc : (d.advance moment).calls[i]? = some c := by
          rw [hcalls, h.found, Option.map_some, Call.round_of_deadline? (by rw [hp]; rfl)]
        refine ⟨c, ⟨h.owned.advance moment, hc, h.holds, h.apart⟩, hp, rfl, fun ns => ?_⟩
        have hmoment : max d.now moment ≤ start := hstart
        -- What was told before time passed was told before the call begins to wait, just as well.
        have hknown : ∀ (flag : Bool) (later : Option Nat),
            (known? flag (max d.now moment) later).map (max start) =
              (known? flag d.now later).map (max start) := by
          intro flag later
          cases flag with
          | false => rfl
          | true =>
              simp only [known?, if_true, Option.map_some]
              congr 1
              omega
        show (d.advance moment).race i c w start deadline ns = _
        simp only [race, now_advance, completed_advance, hknown, chronicle]
      · have hsame : d.move (.pass moment) = d := if_neg hm
        rw [hsame]
        refine ⟨c, h, hp, rfl, fun ns => ?_⟩
        simp only [race, chronicle, Nat.max_eq_left (Nat.le_of_not_lt hm)]

theorem running_run (deadline : Nat) (h : Attends r₀ d i c w) (hp : c.phase = .running (some w))
    (hms : ∀ m ∈ ms, m ≠ .happening (.drop i) ∧ ∀ result, m ≠ .happening (.conclude i result))
    (hstart : timeAfter d.now ms ≤ start) :
    ∃ c', Attends r₀ (d.run ms) i c' w ∧ c'.phase = .running (some w) ∧ c'.asked = c.asked ∧
      ∀ ns, (d.run ms).race i c' w start deadline ns =
        d.race i c w start deadline (ms ++ ns) := by
  induction ms generalizing d c with
  | nil => exact ⟨c, h, hp, rfl, fun ns => rfl⟩
  | cons m ms ih =>
      obtain ⟨hdrop, hend⟩ := hms m List.mem_cons_self
      obtain ⟨c', h', hp', hasked, hrace⟩ := running_move deadline h hp hdrop hend
        (Nat.le_trans le_timeAfter hstart)
      have hnow : timeAfter (d.move m).now ms ≤ start := by
        have := now_run d [m]
        rw [show (d.move m).now = m.timeFrom d.now from this]
        exact hstart
      obtain ⟨c'', h'', hp'', hasked', hrace'⟩ := ih h' hp'
        (fun m hm => hms m (List.mem_cons_of_mem _ hm)) hnow
      exact ⟨c'', h'', hp'', hasked'.trans hasked, fun ns => (hrace' ns).trans (hrace (ms ++ ns))⟩

/-! ### The end of the command -/

/-- A call whose command has taken effect at once looks around, and waits on or ends as its race
does. -/
theorem conclude_race {maxWait : Nat} {value : α} (h : Attends r₀ d i c w)
    (hp : c.phase = .running (some w)) (hmax : d.maxWait = maxWait)
    (hseen : Seen i w
      (chronicle d.now (.happening (.conclude i (.ok (.immediate value))) :: ms)))
    (hdrop : ∀ m ∈ ms, m ≠ .happening (.drop i)) :
    (d.run (.happening (.conclude i (.ok (.immediate value))) :: ms)).Decided i w value
      (d.race i c w d.now (d.now + c.patience maxWait)
        (.happening (.conclude i (.ok (.immediate value))) :: ms)) := by
  generalize hx : (Happening.conclude i (.ok (.immediate value)) : Happening α) = x at hseen ⊢
  have hnone : x.signal? i w = none := by rw [← hx]; rfl
  have hlook : x.looks i = true := by simp [← hx, Happening.looks]
  generalize hr : d.race i c w d.now (d.now + c.patience maxWait) (.happening x :: ms) = r
  have hself : Desk.hear c i w x = c := hear_eq_self (by rw [hnone]; simp)
  -- The call has begun to wait, and has not looked around yet.
  let b : Call α := { c with phase := .waiting w value (d.now + c.patience maxWait) }
  have hrace : (d.step x).race i b w d.now (d.now + c.patience maxWait) ms = r := by
    have := h.race_step x d.now (d.now + c.patience maxWait) ms
    rw [hself, hr] at this
    exact this
  have hdeadline : r.deadline = d.now + c.patience maxWait := by rw [← hr]; rfl
  have hcall : (d.step x).calls[i]? = some (b.poll d.registry d.now).1 := by
    rw [← hx]
    refine calls_onCall.trans ?_
    rw [if_pos rfl, h.found, Option.map_some]
    simp only [Call.conclude, hp, Executed.immediate, hmax]
    rfl
  have hlater : ∀ s t, firstTime? s (signals i w (chronicle d.now (.happening x :: ms))) = some t →
      d.now < t := by
    intro s t ht
    rw [chronicle, signals_cons_of_none hnone] at ht
    exact hseen.lt_of_firstTime? hlook ht
  have hwaiting : b.phase = .waiting w value (d.now + c.patience maxWait) := rfl
  rcases poll_race i hwaiting (Nat.le_refl d.now) (Nat.le_add_right _ _) hlater with
    ⟨hsame, _⟩ | ⟨he, hlast⟩
  · rw [hsame] at hcall
    have hwaits : Waits r₀ (d.step x) i w value d.now r ms b := by
      refine ⟨⟨h.owned.step x, hcall, rfl, h.apart⟩, ?_, ?_, ?_, ?_⟩
      · rw [hdeadline]
      · exact Nat.le_of_eq (now_step x).symm
      · rw [now_step, hdeadline]
        exact Nat.le_add_right _ _
      · rw [hdeadline]
        exact hrace
    refine hwaits.run hdrop ?_
    rw [now_step]
    exact hseen.tail
  · have hb : d.race i b w d.now (d.now + c.patience maxWait) (.happening x :: ms) = r := hr
    rw [hb] at he hlast
    refine decided_of_ended (d := d.step x) hcall (he.trans (by rw [hlast])) ?_ ms
    rw [now_step]
    exact Nat.le_of_eq hlast

theorem conclude_deferred {x : Executed α} (h : Attends r₀ d i c w)
    (hp : c.phase = .running (some w)) (hx : x.timing ≠ .immediate) (ms : List (Move α)) :
    ∃ c', (d.run (.happening (.conclude i (.ok x)) :: ms)).calls[i]? = some c' ∧
      c'.phase = .ended (.answered (.ok (.completed x.value))) d.now := by
  refine ended_run (d := d.step (.conclude i (.ok x)))
    (c := (c.answer d.registry d.now (.completed x.value)).1) ?_ rfl ms
  refine calls_onCall.trans ?_
  rw [if_pos rfl, h.found, Option.map_some]
  obtain ⟨value, timing⟩ := x
  cases timing with
  | immediate => exact absurd rfl hx
  | deferred date => simp only [Call.conclude, hp]

/-! ### Registration -/

/-- A call that registers has a waiter with a number of its own, which has not been completed. -/
theorem attends_enlist {tags : ControlTagSet} (h : Owned r₀ d) (hr : r₀.Numbered)
    (hm : r₀.made ≤ d.registry.made) (hd : ∀ n ∈ d.registry.completed, n < d.registry.made)
    (hc : d.calls[i]? = some c) (hp : c.phase = .noted tags)
    (hfree : d.registry.find? c.context.token = none)
    (hw : w = ⟨d.registry.made, c.context.token, tags⟩) :
    Attends r₀ (d.step (.enlist i)) i { c with phase := .running (some w) } w ∧
      w.number ∉ (d.step (.enlist i)).registry.completed := by
  subst hw
  refine ⟨⟨h.step _, ?_, rfl, ?_⟩, ?_⟩
  · refine calls_onCall.trans ?_
    rw [if_pos rfl, hc, Option.map_some]
    have hregister := Registry.register_eq_ok_iff.mpr
      ⟨(show (d.registry.make c.context.token tags).2.find?
          (d.registry.make c.context.token tags).1.token = none from hfree), rfl⟩
    simp only [Call.enlist, hp, hregister]
    rfl
  · intro k v hv
    exact Nat.ne_of_lt (Nat.lt_of_lt_of_le (hr.registered k v hv) hm)
  · rw [(quiet_step (d := d) (x := .enlist i) (by simp)).completed]
    intro hn
    exact Nat.lt_irrefl _ (hd _ hn)

end Desk

/-! ## Stays -/

/-- A call that registers a waiter at a desk, with what came before, what comes while its command
runs, and what comes after that. -/
structure Stay (α : Type) where
  /-- What was registered when the desk opened. -/
  registry : Registry
  maxWait : Nat
  earlier : List (Move α)
  number : Nat
  call : Call α
  tags : ControlTagSet
  during : List (Move α)
  executed : Executed α
  later : List (Move α)

/-- What a call knows of its wait. -/
structure Vigil (α : Type) where
  /-- When the command came to its end. -/
  start : Nat
  patience : Nat
  executed : Executed α
  signals : List (Nat × Signal)

/-- What is told before the call begins to wait counts as told then. -/
def Vigil.race (v : Vigil α) : Race where
  deadline := v.start + v.patience
  interrupted := (firstTime? .interruption v.signals).map (max v.start)
  settled := (firstTime? .settlement v.signals).map (max v.start)

/-- When a call ends, and how. -/
def Vigil.ending (v : Vigil α) : Nat × Outcome α :=
  match v.executed.timing with
  | .deferred _ => (v.start, .completed v.executed.value)
  | .immediate => (v.race.last, v.race.outcome v.executed.value)

theorem Vigil.ending_cases (v : Vigil α) :
    v.ending.2 = .completed v.executed.value ∨ v.ending.2 = .interrupted ∨
      v.ending.2 = .unconfirmed := by
  unfold Vigil.ending Race.outcome
  split
  · exact Or.inl rfl
  · dsimp only
    split
    · exact Or.inr (Or.inl rfl)
    · split
      · exact Or.inl rfl
      · exact Or.inr (Or.inr rfl)

namespace Stay

/-- The desk at which the call is to register. -/
def desk (s : Stay α) : Desk α := (Desk.opened s.registry s.maxWait).run s.earlier

/-- The waiter that the call registers. -/
def waiter (s : Stay α) : Waiter := ⟨s.desk.registry.made, s.call.context.token, s.tags⟩

/-- What comes after the registration. -/
def moves (s : Stay α) : List (Move α) :=
  s.during ++ .happening (.conclude s.number (.ok s.executed)) :: s.later

/-- The desk in the end. -/
def final (s : Stay α) : Desk α := s.desk.run (.happening (.enlist s.number) :: s.moves)

/-- What the call knows of its wait. An interruption from before the registration counts as one at
the registration. -/
def vigil (s : Stay α) : Vigil α where
  start := timeAfter s.desk.now s.during
  patience := s.call.patience s.maxWait
  executed := s.executed
  signals := (if s.call.interrupted then [(s.desk.now, .interruption)] else []) ++
    signals s.number s.waiter (chronicle s.desk.now s.moves)

/-- The call can register, its command runs until it comes to its end, nobody drops the call, and
whatever happens at a moment is seen by the call when it looks around at that moment. -/
structure Proper (s : Stay α) : Prop where
  numbered : s.registry.Numbered
  found : s.desk.calls[s.number]? = some s.call
  noted : s.call.phase = .noted s.tags
  free : s.desk.registry.find? s.call.context.token = none
  runs : ∀ m ∈ s.during, m ≠ .happening (.drop s.number) ∧
    ∀ result, m ≠ .happening (.conclude s.number result)
  stays : ∀ m ∈ s.later, m ≠ .happening (.drop s.number)
  seen : Seen s.number s.waiter (chronicle s.desk.now s.moves)

variable {s t : Stay α}

/-- The call when its command begins to run. -/
def running (s : Stay α) : Call α := { s.call with phase := .running (some s.waiter) }

theorem Proper.attends (h : s.Proper) :
    (s.desk.step (.enlist s.number)).Attends s.registry s.number s.running s.waiter ∧
      s.waiter.number ∉ (s.desk.step (.enlist s.number)).registry.completed := by
  have hopened : Desk.Owned s.registry (Desk.opened s.registry s.maxWait : Desk α) := .opened _
  obtain ⟨hmade, hdone⟩ := hopened.numbered_run h.numbered (Nat.le_refl _) h.numbered.completed
    s.earlier
  exact Desk.attends_enlist (hopened.run s.earlier) h.numbered hmade hdone h.found h.noted h.free
    rfl

/-- At the registration the race is what the call will know of it. -/
theorem Proper.race_eq (h : s.Proper) :
    (s.desk.step (.enlist s.number)).race s.number s.running s.waiter s.vigil.start
      (s.vigil.start + s.vigil.patience) s.moves = s.vigil.race := by
  have hdone := h.attends.2
  have hnow := Desk.now_step (d := s.desk) (.enlist s.number)
  unfold Desk.race Vigil.race
  rw [hnow]
  congr 1
  · simp only [vigil, firstTime?_preface]
    simp [running]
  · simp only [vigil, firstTime?_preface]
    simp [hdone]

/-- The desk when the command has come to its end. -/
def ready (s : Stay α) : Desk α := (s.desk.step (.enlist s.number)).run s.during

/-- What comes from then on. -/
def rest (s : Stay α) : List (Move α) :=
  .happening (.conclude s.number (.ok s.executed)) :: s.later

theorem now_ready (s : Stay α) : s.ready.now = s.vigil.start := by
  rw [ready, Desk.now_run, Desk.now_step]
  rfl

theorem maxWait_ready (s : Stay α) : s.ready.maxWait = s.maxWait := by
  rw [ready, Desk.maxWait_run, Desk.maxWait_step]
  exact Desk.maxWait_run _ _

theorem final_eq_run (s : Stay α) : s.final = s.ready.run s.rest := List.foldl_append

theorem Proper.seen_rest (h : s.Proper) :
    Seen s.number s.waiter (chronicle s.ready.now s.rest) := by
  have hseen := h.seen
  rw [moves, chronicle_append] at hseen
  rw [now_ready]
  exact hseen.right

/-- When the command has come to its end, its call is as good as at its registration. -/
theorem Proper.exists_ready (h : s.Proper) :
    ∃ c, s.ready.Attends s.registry s.number c s.waiter ∧ c.phase = .running (some s.waiter) ∧
      c.patience s.maxWait = s.vigil.patience ∧
      s.ready.race s.number c s.waiter s.vigil.start (s.vigil.start + s.vigil.patience) s.rest =
        s.vigil.race := by
  have hstart : timeAfter (s.desk.step (.enlist s.number)).now s.during ≤ s.vigil.start := by
    rw [Desk.now_step]
    exact Nat.le_refl _
  obtain ⟨c, hattends, hp, hasked, hrace⟩ := Desk.running_run
    (s.vigil.start + s.vigil.patience) h.attends.1 rfl h.runs hstart
  refine ⟨c, hattends, hp, ?_, (hrace s.rest).trans h.race_eq⟩
  have htimeout : c.timeout = s.call.timeout := congrArg (·.2.2) hasked
  rw [Call.patience, htimeout]
  rfl

theorem ending_of_deferred {date : Date} (h : s.executed.timing = .deferred date) :
    s.vigil.ending = (s.vigil.start, .completed s.executed.value) := by
  have hvigil : s.vigil.executed.timing = .deferred date := h
  rw [Vigil.ending, hvigil]
  rfl

theorem ending_of_immediate (h : s.executed.timing = .immediate) :
    s.vigil.ending = (s.vigil.race.last, s.vigil.race.outcome s.executed.value) := by
  have hvigil : s.vigil.executed.timing = .immediate := h
  rw [Vigil.ending, hvigil]
  rfl

theorem Proper.final_phase (h : s.Proper) :
    ∃ c, s.final.calls[s.number]? = some c ∧
      (c.phase = .ended (.answered (.ok s.vigil.ending.2)) s.vigil.ending.1 ∧
          s.vigil.ending.1 ≤ s.final.now ∨
        c.phase = .waiting s.waiter s.executed.value (s.vigil.start + s.vigil.patience) ∧
          s.executed.timing = .immediate ∧ s.final.now ≤ s.vigil.ending.1) := by
  obtain ⟨c, hattends, hp, hpatience, hrace⟩ := h.exists_ready
  rw [final_eq_run]
  cases htiming : s.executed.timing with
  | deferred date =>
      obtain ⟨c', hc', he⟩ := Desk.conclude_deferred (x := s.executed) hattends hp
        (by rw [htiming]; simp) s.later
      rw [now_ready] at he
      rw [ending_of_deferred htiming]
      refine ⟨c', hc', Or.inl ⟨he, ?_⟩⟩
      rw [Desk.now_run, now_ready]
      exact le_timeAfter
  | immediate =>
      have hexecuted : s.executed = .immediate s.executed.value := by
        rw [Executed.immediate, ← htiming]
      have hrest : s.rest = .happening (.conclude s.number
          (.ok (.immediate s.executed.value))) :: s.later := by
        rw [rest, ← hexecuted]
      have hseen := h.seen_rest
      rw [hrest] at hseen hrace ⊢
      have hdecided := Desk.conclude_race hattends hp s.maxWait_ready hseen h.stays
      rw [now_ready, hpatience, hrace] at hdecided
      obtain ⟨c', hc', hcase⟩ := hdecided
      rw [ending_of_immediate htiming]
      refine ⟨c', hc', ?_⟩
      rcases hcase with ⟨hw, hle⟩ | ⟨he, hle⟩
      · exact Or.inr ⟨hw, rfl, hle⟩
      · exact Or.inl ⟨he, hle⟩

/-- A call whose command was carried out ends as what it knows of its wait has it, and not before;
whatever else happens at the desk, under other tokens or to other calls, does not show. An answer is
made of nothing but the value of a completed call. -/
theorem ends_by_vigil (h : s.Proper) :
    (∃ c, s.final.calls[s.number]? = some c ∧
      (c.phase = .ended (.answered (.ok s.vigil.ending.2)) s.vigil.ending.1 ∧
          s.vigil.ending.1 ≤ s.final.now ∨
        c.phase = .waiting s.waiter s.executed.value (s.vigil.start + s.vigil.patience) ∧
          s.executed.timing = .immediate ∧ s.final.now ≤ s.vigil.ending.1)) ∧
      (∀ t : Stay α, t.Proper → t.vigil = s.vigil → s.vigil.ending.1 < s.final.now →
        s.vigil.ending.1 < t.final.now → ∃ b c, t.final.calls[t.number]? = some b ∧
          s.final.calls[s.number]? = some c ∧ b.phase = c.phase) ∧
      ∀ (β : Type) (respond other : α → β),
        s.vigil.ending.2.map respond = .completed (respond s.executed.value) ∨
          s.vigil.ending.2.map respond = s.vigil.ending.2.map other := by
  have hended : ∀ t : Stay α, t.Proper → t.vigil.ending.1 < t.final.now →
      ∃ b, t.final.calls[t.number]? = some b ∧
        b.phase = .ended (.answered (.ok t.vigil.ending.2)) t.vigil.ending.1 := by
    intro t ht hlate
    obtain ⟨b, hb, ⟨he, _⟩ | ⟨_, _, hle⟩⟩ := ht.final_phase
    · exact ⟨b, hb, he⟩
    · exact absurd hlate (Nat.not_lt.mpr hle)
  refine ⟨h.final_phase, ?_, ?_⟩
  · intro t ht hvigil hs hlate
    rw [← hvigil] at hlate
    obtain ⟨b, hb, he⟩ := hended t ht hlate
    obtain ⟨c, hc, he'⟩ := hended s h hs
    rw [hvigil] at he
    exact ⟨b, c, hb, hc, he.trans he'.symm⟩
  · intro β respond other
    rcases s.vigil.ending_cases with he | he | he
    · rw [he]
      exact Or.inl rfl
    · rw [he]
      exact Or.inr rfl
    · rw [he]
      exact Or.inr rfl

/-- A call is completed at the very moment at which its time is over, while another call of another
token is interrupted. -/
def timely : Stay Nat where
  registry := .empty fun _ => 0
  maxWait := 60000
  earlier := [.happening (.arrive ⟨.numbered 1, some (.numbered 0), .none⟩ true 2),
    .happening (.arrive ⟨.numbered 2, some (.numbered 0), .none⟩ true 2),
    .happening (.start 0 (.ok .empty)), .happening (.start 1 (.ok .empty)),
    .happening (.enlist 1)]
  number := 0
  call := ⟨⟨.numbered 1, some (.numbered 0), .none⟩, true, 2, false, .noted .empty⟩
  tags := .empty
  during := [.happening (.event (.numbered 2) .emptyInvoice), .pass 10]
  executed := .immediate 7
  later := [.happening (.interrupt 1), .pass 2010,
    .happening (.event (.numbered 1) .emptyInvoice), .happening (.poll 0), .pass 3000]

theorem timely_ends :
    timely.Proper ∧ timely.vigil.ending = (2010, .completed 7) ∧
      ∃ c, timely.final.calls[0]? = some c ∧
        c.phase = .ended (.answered (.ok (.completed 7))) 2010 := by
  have hproper : timely.Proper := by
    refine ⟨⟨?_, ?_⟩, rfl, rfl, rfl, ?_, ?_, ?_⟩
    · intro k w hw
      rw [timely, Registry.find?_empty] at hw
      cases hw
    · intro n hn
      cases hn
    · simp [timely]
    · simp [timely]
    · unfold Seen
      decide
  have hending : timely.vigil.ending = (2010, .completed 7) := rfl
  refine ⟨hproper, hending, ?_⟩
  obtain ⟨⟨c, hc, ⟨he, _⟩ | ⟨_, _, hle⟩⟩, _⟩ := ends_by_vigil hproper
  · rw [hending] at he
    exact ⟨c, hc, he⟩
  · rw [hending] at hle
    exact absurd hle (by decide)

end Stay

end Billing.Completion
