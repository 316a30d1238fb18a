import Billing.Proofs.Service.Punctual

/-!
# The way to an answer

A run has only so many steps left, and what is left to do before time passes gets less with every
step. So there is always a way on which time passes, and on which a waiting call is answered.
-/

namespace Billing

/-! ## Steps of runs -/

namespace Pipeline

/-- How many steps a run in some phase has left at most. -/
def Phase.stepsLeft : Phase → Nat
  | .queued => 7
  | .transitioning _ => 6
  | .invoicing _ => 5
  | .announcing _ _ => 4
  | .paying _ _ => 3
  | .drafting _ | .settling _ _ => 2
  | .blocking _ | .failing _ | .confirming _ _ => 1
  | .ended => 0

/-- A step is one step less to take, and hands out one identifier at most. -/
theorem Phase.stepsLeft_step {p : Phase} (o : Order) (b : Books) (now : Instant) (h : p ≠ .ended) :
    (p.step o b now).phase.stepsLeft < p.stepsLeft ∧
      (p.step o b now).books.fresh ≤ b.fresh + 1 := by
  cases p with
  | ended => exact absurd rfl h
  | queued =>
      simp only [step]
      split <;> simp [Progress.silent, stepsLeft]
  | transitioning t =>
      simp only [step]
      split <;> simp [Progress.announce, stepsLeft]
  | drafting t =>
      simp only [step]
      split <;> simp [Progress.silent, stepsLeft]
  | invoicing t =>
      simp only [step]
      split <;> simp [Progress.silent, Progress.announce, stepsLeft]
  | announcing t i =>
      simp only [step]
      split <;> simp [Progress.announce, stepsLeft]
  | paying t i =>
      simp only [step, Books.pay]
      split <;> split <;> simp [Progress.silent, stepsLeft]
  | _ => simp [step, Progress.announce, stepsLeft]

namespace Works

variable {w : Works} {n : Nat} {r : Run}

/-- How many steps all runs have left at most. -/
def stepsLeft (w : Works) : Nat := total (·.phase.stepsLeft) w.runs

theorem stepsLeft_stepRun (h : w.mover? n = some r) :
    (w.stepRun n).stepsLeft < w.stepsLeft ∧ (w.stepRun n).books.fresh ≤ w.books.fresh + 1 ∧
      (w.stepRun n).published.length ≤ w.published.length + 1 := by
  obtain ⟨hr, he, _⟩ := mover?_eq_some_iff.mp h
  obtain ⟨hleft, hfresh⟩ := Phase.stepsLeft_step r.order w.books w.clock he
  rw [stepRun_of_mover? h]
  refine ⟨?_, hfresh, ?_⟩
  · have := total_set (fun r : Run => r.phase.stepsLeft) hr (r.next w)
    have hleft : (r.next w).phase.stepsLeft < r.phase.stepsLeft := hleft
    simp only [stepsLeft]
    omega
  · simp only [List.length_append, Run.news, List.length_map]
    cases (r.phase.step r.order w.books w.clock).event with
    | none => simp
    | some e => simp

end Works

end Pipeline

/-! ## What is left to do -/

namespace Service

open Completion (Call Desk Phase Waiter)
open Pipeline (Run Works)

/-- Whether an action only goes on with what has been asked for. -/
def Action.goesOn : Action → Bool
  | .conclude _ | .poll _ | .drop _ | .stepRun _ | .deliver | .pass _ => true
  | _ => false

namespace System

variable {s t : System} {a : Action} {as : List Action} {i : Nat} {c : Call Subscription}

/-- What is left to do at the desk and for the runs. -/
def toDo (s : System) : Nat :=
  2 * s.works.stepsLeft + s.works.published.length +
    total (fun c => (!c.phase.isEnded).toNat) s.desk.calls

/-- How many identifiers have been handed out, and how many more all runs may need. -/
def needs (s : System) : Nat := s.works.books.fresh + s.works.stepsLeft

theorem commands_of_goesOn (h : a.goesOn = true) : (s.step a).commands = s.commands := by
  have he := s.step_effect a
  generalize (s.step a).works = w at he
  generalize (s.step a).desk = d at he
  generalize (s.step a).commands = cs at he ⊢
  cases he with
  | arrived => cases h
  | worked => cases h
  | _ => rfl

theorem commands_steps (h : ∀ a ∈ as, a.goesOn = true) : (s.steps as).commands = s.commands := by
  induction as generalizing s with
  | nil => rfl
  | cons a as ih =>
      rw [List.forall_mem_cons] at h
      exact (ih h.2).trans (commands_of_goesOn h.1)

/-- What is done for others leaves a call alone, and takes no time. -/
structure Aside (i : Nat) (s t : System) : Prop where
  call : t.desk.calls[i]? = s.desk.calls[i]?
  time : t.time = s.time
  closing : t.closing = s.closing
  needs : t.needs ≤ s.needs

theorem Aside.refl (i : Nat) (s : System) : s.Aside i s := ⟨rfl, rfl, rfl, Nat.le_refl _⟩

theorem Aside.trans {u : System} (h : s.Aside i t) (k : t.Aside i u) : s.Aside i u where
  call := k.call.trans h.call
  time := k.time.trans h.time
  closing := k.closing.trans h.closing
  needs := Nat.le_trans k.needs h.needs

theorem aside_deliver {p : Pipeline.Publication} {rest : List Pipeline.Publication}
    (h : s.works.published = p :: rest) :
    Aside i s (s.step .deliver) ∧ (s.step .deliver).toDo < s.toDo := by
  have hstep : s.step .deliver =
      { s with works := { s.works with published := rest } }.atDesk (.event p.token p.event) := by
    simp only [step, h]
  rw [hstep]
  refine ⟨⟨rfl, rfl, rfl, Nat.le_refl _⟩, ?_⟩
  have hlen : s.works.published.length = rest.length + 1 := by rw [h]; rfl
  show 2 * s.works.stepsLeft + rest.length + _ < 2 * s.works.stepsLeft + _ + _
  rw [hlen]
  exact Nat.add_lt_add_right (Nat.lt_succ_self _) _

theorem aside_stepRun {n : Nat} {r : Run} (h : s.works.mover? n = some r) :
    Aside i s (s.step (.stepRun n)) ∧ (s.step (.stepRun n)).toDo < s.toDo := by
  obtain ⟨hleft, hfresh, hpub⟩ := Works.stepsLeft_stepRun h
  refine ⟨⟨rfl, Works.time_stepRun .., rfl, ?_⟩, ?_⟩
  · show (s.works.stepRun n).books.fresh + (s.works.stepRun n).stepsLeft ≤ s.needs
    unfold needs
    omega
  · have hworks : (s.step (.stepRun n)).works = s.works.stepRun n := rfl
    have hdesk : (s.step (.stepRun n)).desk = s.desk := rfl
    unfold toDo
    rw [hworks, hdesk]
    omega

theorem aside_drop {j : Nat} (hc : s.desk.calls[j]? = some c) (hp : c.phase.isEnded = false)
    (hj : i ≠ j) : Aside i s (s.step (.drop j)) ∧ (s.step (.drop j)).toDo < s.toDo := by
  refine ⟨⟨?_, rfl, rfl, Nat.le_refl _⟩, ?_⟩
  · show (s.desk.onCall j _).calls[i]? = _
    rw [Desk.calls_onCall, if_neg hj]
  · have hended : ((c.drop s.desk.registry s.desk.now).1).phase.isEnded = true := by
      rw [Call.drop, if_neg (by rw [hp]; exact Bool.false_ne_true)]
      rfl
    have hsum := total_set (fun c : Call Subscription => (!c.phase.isEnded).toNat) hc
      (c.drop s.desk.registry s.desk.now).1
    have hcalls : (s.step (.drop j)).desk.calls =
        s.desk.calls.set j (c.drop s.desk.registry s.desk.now).1 := by
      show (s.desk.onCall j _).calls = _
      simp only [Desk.onCall, hc]
    simp only [hended, hp, Bool.not_true, Bool.not_false, Bool.toNat_false, Bool.toNat_true] at hsum
    have hworks : (s.step (.drop j)).works = s.works := rfl
    unfold toDo
    rw [hcalls, hworks]
    omega

/-- As long as something is left to do before time passes, a step for others makes it less. -/
theorem exists_aside {v : Waiter} {value : Subscription} {deadline : Nat} (h : s.isBusy = true)
    (hc : s.desk.calls[i]? = some c) (hw : c.phase = .waiting v value deadline) :
    ∃ a, a.goesOn = true ∧ Aside i s (s.step a) ∧ (s.step a).toDo < s.toDo := by
  simp only [isBusy, Bool.or_eq_true] at h
  rcases h with (h | h) | h
  · cases hp : s.works.published with
    | nil =>
        rw [hp] at h
        cases h
    | cons p rest => exact ⟨.deliver, rfl, aside_deliver hp⟩
  · obtain ⟨r, hmem, hr⟩ := List.any_eq_true.mp h
    obtain ⟨n, hn⟩ := List.getElem?_of_mem hmem
    have hr : r.phase ≠ .ended ∧ r.due ≤ s.time := by simpa using hr
    exact ⟨.stepRun n, rfl, aside_stepRun (Works.mover?_eq_some_iff.mpr ⟨hn, hr⟩)⟩
  · obtain ⟨c', hmem, hb⟩ := List.any_eq_true.mp h
    obtain ⟨j, hj⟩ := List.getElem?_of_mem hmem
    refine ⟨.drop j, rfl, aside_drop hj ?_ ?_⟩
    · cases hp : c'.phase with
      | ended => simp [hp] at hb
      | _ => rfl
    · rintro rfl
      rw [hc] at hj
      cases hj
      simp [hw] at hb

/-- Everything else can be done before time passes. -/
theorem exists_quiet {v : Waiter} {value : Subscription} {deadline : Nat}
    (hc : s.desk.calls[i]? = some c) (hw : c.phase = .waiting v value deadline) :
    ∃ as, (∀ a ∈ as, a.goesOn = true) ∧ Aside i s (s.steps as) ∧ (s.steps as).isBusy = false := by
  induction hk : s.toDo using Nat.strongRecOn generalizing s with
  | ind k ih =>
      cases hb : s.isBusy with
      | false => exact ⟨[], (fun _ h => nomatch h), .refl i s, hb⟩
      | true =>
          obtain ⟨a, ha, haside, hless⟩ := exists_aside hb hc hw
          obtain ⟨as, has, haside', hquiet⟩ :=
            ih _ (hk ▸ hless) (haside.call.trans hc) rfl
          exact ⟨a :: as, List.forall_mem_cons.mpr ⟨ha, has⟩, haside.trans haside', hquiet⟩

/-! ## Time -/

theorem lt_nextMoment? {m : Nat} (hclosing : s.closing = none) (hq : s.isBusy = false)
    (hm : s.nextMoment? = some m) : s.time < m := by
  have hmem := (List.min?_eq_some_iff.mp hm).1
  rw [hclosing, Option.filter_none, Option.toList_none, List.append_nil, Option.mem_toList] at hmem
  obtain ⟨r, hr, hd⟩ := List.mem_filterMap.mp (List.min?_eq_some_iff.mp hmem).1
  simp only [isBusy, Bool.or_eq_false_iff] at hq
  have hdue := List.any_eq_false.mp hq.1.2 r hr
  split at hd
  · cases hd
  · rename_i he
    cases hd
    simpa [he] using hdue

theorem pass_of_quiet (hclosing : s.closing = none) (hq : s.isBusy = false) :
    s.step (.pass (s.time + 1)) =
      { s with works := s.works.passTo (s.time + 1), desk := s.desk.advance (s.time + 1) } := by
  cases hm : s.nextMoment? with
  | none => simp [step, hq, passTo, hm, isClosed, hclosing]
  | some m =>
      have hlt : s.time + 1 ≤ m := lt_nextMoment? hclosing hq hm
      simp [step, hq, passTo, hm, isClosed, hclosing, Nat.min_eq_left hlt]

/-- A waiting call looks around if its time is over, and otherwise time goes on. -/
theorem ending_or_later {v : Waiter} {value : Subscription} {deadline : Nat} (hs : s.Sound)
    (hclosing : s.closing = none) (hq : s.isBusy = false) (hc : s.desk.calls[i]? = some c)
    (hw : c.phase = .waiting v value deadline) :
    ∃ a, a.goesOn = true ∧ (s.step a).needs ≤ s.needs ∧
      ((∃ result, (s.step a).ending? i = some (.answered result)) ∨
        (s.step a).closing = none ∧ (s.step a).desk.calls[i]? = some c ∧
          s.time < (s.step a).time ∧ s.time < deadline) := by
  have hnow : s.desk.now = s.time := hs.timed.now
  by_cases hd : deadline ≤ s.time
  · refine ⟨.poll i, rfl, Nat.le_refl _, Or.inl ?_⟩
    have hcall : (s.step (.poll i)).desk.calls[i]? =
        some (c.poll s.desk.registry s.desk.now).1 := by
      show (s.desk.onCall i _).calls[i]? = _
      rw [Desk.calls_onCall, if_pos rfl, hc]
      rfl
    rcases Call.poll_waiting s.desk.registry s.desk.now hw with ⟨_, _, hlt⟩ | ⟨o, ho, _⟩
    · omega
    · exact ⟨_, ending?_eq_some_iff.mpr ⟨_, _, hcall, ho⟩⟩
  · have hlt : s.desk.now < s.time + 1 := by omega
    obtain ⟨_, _, _, hcalls⟩ := Desk.calls_advance hlt
    have hcall : (s.desk.advance (s.time + 1)).calls[i]? =
        some (c.round s.desk.registry s.desk.now (s.time + 1)) := by
      rw [hcalls, hc]
      rfl
    refine ⟨.pass (s.time + 1), rfl, ?_, ?_⟩
    · rw [pass_of_quiet hclosing hq]
      exact Nat.le_refl _
    · rw [pass_of_quiet hclosing hq]
      rcases Call.round_waiting s.desk.registry s.desk.now (s.time + 1) hw with
        ⟨hsame, _⟩ | ⟨o, t, ho, _⟩
      · rw [hsame] at hcall
        refine Or.inr ⟨hclosing, hcall, ?_, Nat.lt_of_not_le hd⟩
        exact Nat.lt_of_lt_of_le (Nat.lt_succ_self _) (Nat.le_max_right _ _)
      · exact Or.inl ⟨_, ending?_eq_some_iff.mpr ⟨_, _, hcall, ho⟩⟩

/-- A running call whose command has come to its end waits, or it is answered without a wait. -/
theorem concluding {m : Submitted} {w : Waiter} {value : Subscription} {run : Option Nat}
    (hclosing : s.closing = none) (hm : s.commands[i]? = some m)
    (hd : m.stage = .done (.ok (.immediate value)) run) (hc : s.desk.calls[i]? = some c)
    (hp : c.phase = .running (some w)) :
    ∃ c', (s.step (.conclude i)).desk.calls[i]? = some c' ∧
      (s.step (.conclude i)).needs ≤ s.needs ∧ (s.step (.conclude i)).closing = none ∧
        ((∃ deadline, c'.phase = .waiting w value deadline) ∨
          ∃ o t, c'.phase = .ended (.answered (.ok o)) t) := by
  have hstep : s.step (.conclude i) = s.atDesk (.conclude i (.ok (.immediate value))) := by
    simp only [step, hm, hd]
  rw [hstep]
  refine ⟨(c.conclude s.desk.registry s.desk.now s.desk.maxWait (.ok (.immediate value))).1, ?_,
    Nat.le_refl _, hclosing, ?_⟩
  · show (s.desk.onCall i _).calls[i]? = _
    rw [Desk.calls_onCall, if_pos rfl, hc]
    rfl
  · rcases Call.conclude_immediate s.desk.registry s.desk.now s.desk.maxWait value hp with
      hw | ⟨o, ho, _⟩
    · exact Or.inl ⟨_, hw⟩
    · exact Or.inr ⟨o, _, ho⟩

theorem exists_ending {v : Waiter} {value : Subscription} {deadline : Nat} (hs : s.Sound)
    (hclosing : s.closing = none) (hc : s.desk.calls[i]? = some c)
    (hw : c.phase = .waiting v value deadline) :
    ∃ as result, (∀ a ∈ as, a.goesOn = true) ∧ (s.steps as).needs ≤ s.needs ∧
      (s.steps as).ending? i = some (.answered result) := by
  induction hk : deadline - s.time using Nat.strongRecOn generalizing s with
  | ind k ih =>
      obtain ⟨as, has, haside, hquiet⟩ := exists_quiet hc hw
      obtain ⟨a, ha, hneeds, hend⟩ := ending_or_later (hs.steps as) (haside.closing.trans hclosing)
        hquiet (haside.call.trans hc) hw
      have hneeds' := Nat.le_trans hneeds haside.needs
      rcases hend with ⟨result, hend⟩ | ⟨hclosing', hc', hlt, hd⟩
      · refine ⟨as ++ [a], result, ?_, ?_, ?_⟩
        · exact List.forall_mem_append.mpr ⟨has, List.forall_mem_singleton.mpr ha⟩
        · rw [steps_concat]
          exact hneeds'
        · rw [steps_concat]
          exact hend
      · rw [haside.time] at hlt hd
        obtain ⟨bs, result, hbs, hneeds'', hend⟩ :=
          ih (deadline - ((s.steps as).step a).time) (by omega) ((hs.steps as).step a) hclosing' hc'
            rfl
        refine ⟨as ++ a :: bs, result, ?_, ?_, ?_⟩
        · exact List.forall_mem_append.mpr ⟨has, List.forall_mem_cons.mpr ⟨ha, hbs⟩⟩
        · rw [steps_append]
          exact Nat.le_trans hneeds'' hneeds'
        · rw [steps_append]
          exact hend

end System

/-! ## Flights that go on -/

namespace Flight

variable {f : Flight} {n : Nat} {value : Subscription} {more : List Action}

/-- A flight that goes on. -/
def extended (f : Flight) (more : List Action) : Flight := { f with after := f.after ++ more }

theorem final_extended (f : Flight) (more : List Action) :
    (f.extended more).final = f.final.steps more :=
  f.since_append f.after more

theorem answer?_of_ending? {result : Completion.CallResult Subscription}
    (h : f.final.ending? f.number = some (.answered result)) : f.answer? = some result := by
  unfold answer?
  rw [h]

/-- A call that has not come to its end is answered on some way, if its command was carried out. -/
theorem exists_answered (hs : f.Succeeded value n) (hclosing : f.final.closing = none)
    (hend : f.final.ending? f.number = none) : ∃ more result, (∀ a ∈ more, a.goesOn = true) ∧
      (f.final.steps more).needs ≤ f.final.needs ∧ (f.extended more).answer? = some result := by
  obtain ⟨c, m, hst⟩ := f.status f.after
  have hcall : f.final.desk.calls[f.number]? = some c := hst.call
  have hcommand : f.final.commands[f.number]? = some m := hst.command
  have hsound : f.final.Sound := f.sound f.after
  obtain ⟨m', hm', hdone⟩ := hs
  rw [hcommand] at hm'
  cases hm'
  have hstands := hst.stands
  rw [hdone] at hstands
  cases hp : c.phase with
  | arrived =>
      rw [hp] at hstands
      cases hstands.1
  | noted tags =>
      rw [hp] at hstands
      cases hstands.1
  | running w =>
      rw [hp] at hstands
      cases w with
      | none => exact hstands.elim
      | some w =>
          obtain ⟨c', hc', hneeds, hclosing', hc'p⟩ :=
            System.concluding hclosing hcommand hdone hcall hp
          rcases hc'p with ⟨deadline, hw⟩ | ⟨o, t, ho⟩
          · obtain ⟨more, result, hmore, hless, hans⟩ :=
              System.exists_ending (hsound.step _) hclosing' hc' hw
            refine ⟨.conclude f.number :: more, result, List.forall_mem_cons.mpr ⟨rfl, hmore⟩,
              Nat.le_trans hless hneeds, answer?_of_ending? ?_⟩
            rw [final_extended]
            exact hans
          · refine ⟨[.conclude f.number], .ok o, List.forall_mem_singleton.mpr rfl, hneeds,
              answer?_of_ending? ?_⟩
            rw [final_extended]
            exact System.ending?_eq_some_iff.mpr ⟨c', t, hc', ho⟩
  | waiting w x deadline =>
      obtain ⟨more, result, hmore, hneeds, hans⟩ := System.exists_ending hsound hclosing hcall hp
      refine ⟨more, result, hmore, hneeds, answer?_of_ending? ?_⟩
      rw [final_extended]
      exact hans
  | ended e t =>
      have := System.ending?_eq_some_iff.mpr ⟨c, t, hcall, hp⟩
      rw [hend] at this
      cases this

end Flight

end Service

end Billing
