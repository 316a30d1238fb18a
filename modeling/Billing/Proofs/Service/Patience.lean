import Billing.Proofs.Service.Submission

/-!
# How long a caller waits

Whether a caller waits for the billing to settle, and for how long, makes no difference to what a
command does. Both ways of waiting are compared with the command as a whole, not with each other.
What comes afterwards does not tell them apart either, as long as nothing else is asked for.
-/

namespace Billing

/-! ## One call at the desk -/

namespace Completion

variable {α β : Type} {d : Desk α} {c : Call α} {r : Registry} {p : Phase α}
  {f : Call α → Registry → Call α × Registry} {g : Call α → β} {now moment : Nat}

/-- A call in this phase has something to do other than to wait. -/
def Phase.isBusy : Phase α → Bool
  | .waiting .. | .ended .. => false
  | _ => true

theorem Phase.Accepted.not_busy (h : p.Accepted) : p.isBusy = false := by
  cases p with
  | waiting w value deadline => rfl
  | ended e time => rfl
  | _ => cases h

theorem Call.isBusy_poll : (c.poll r now).1.phase.isBusy = c.phase.isBusy := by
  cases hp : c.phase with
  | waiting w value deadline =>
      rcases poll_waiting r now hp with ⟨hc, _⟩ | ⟨o, ho, _⟩
      · rw [hc, hp]
      · rw [ho]
        rfl
  | _ => rw [poll_of_deadline? (by rw [hp]; rfl), hp]

theorem Call.isBusy_expire : (c.expire r moment).1.phase.isBusy = c.phase.isBusy := by
  unfold expire
  split
  · split
    · exact isBusy_poll
    · rfl
  · rfl

theorem Call.isBusy_drop : (c.drop r now).1.phase.isBusy = false := by
  unfold drop
  split
  · rename_i h
    cases hp : c.phase with
    | ended e time => rfl
    | _ =>
        rw [hp] at h
        cases h
  · rfl

namespace Desk

/-- What the newest call does. -/
theorem onCall_last {cs : List (Call α)} (h : d.calls = cs ++ [c]) :
    d.onCall cs.length f =
      { d with calls := cs ++ [(f c d.registry).1], registry := (f c d.registry).2 } := by
  have hc : d.calls[cs.length]? = some c := by
    rw [h]
    exact getElem?_concat_eq_some_iff.mpr (Or.inr ⟨rfl, rfl⟩)
  unfold onCall
  simp only [hc]
  rw [h, List.set_append_right _ _ (Nat.le_refl _), Nat.sub_self]
  rfl

/-- What a call does not change about itself it does not change at the desk. -/
theorem map_onCall (hf : ∀ c r, g (f c r).1 = g c) (i : Nat) :
    (d.onCall i f).calls.map g = d.calls.map g := by
  unfold onCall
  split
  · rfl
  · rename_i c hc
    refine List.ext_getElem? fun j => ?_
    simp only [List.getElem?_map, List.getElem?_set]
    split
    · rename_i hj
      subst hj
      split
      · rw [hc]
        simp only [Option.map_some, hf]
      · rename_i hlt
        exact absurd (List.getElem?_eq_some_iff.mp hc).1 hlt
    · rfl

theorem map_onCall_set {v : β} (hf : ∀ c r, g (f c r).1 = v) (i : Nat) :
    (d.onCall i f).calls.map g = (d.calls.map g).set i v := by
  unfold onCall
  split
  · rename_i hc
    rw [List.set_eq_of_length_le]
    rw [List.length_map]
    exact List.getElem?_eq_none_iff.mp hc
  · rw [List.map_set, hf]

theorem map_onAllCalls (hf : ∀ c r, g (f c r).1 = g c) :
    (d.onAllCalls f).calls.map g = d.calls.map g := by
  have hall : ∀ is : List Nat,
      (is.foldl (fun d i => d.onCall i f) d).calls.map g = d.calls.map g := by
    intro is
    induction is generalizing d with
    | nil => rfl
    | cons i is ih => exact ih.trans (map_onCall hf i)
  exact hall _

theorem map_isBusy_advance (moment : Nat) :
    (d.advance moment).calls.map (·.phase.isBusy) = d.calls.map (·.phase.isBusy) := by
  unfold advance
  split
  · exact (map_onAllCalls fun c r => Call.isBusy_expire).trans
      (map_onAllCalls fun c r => Call.isBusy_poll)
  · rfl

end Desk

end Completion

namespace Service

open Completion (Call CallContext Desk Phase Registry)
open Pipeline (Works)

theorem Command.read_error {c : Command} {catalog : Catalog} {s : Store} {id : AccountId}
    {e : DomainError} (hc : c.account? s = some id) (he : s.account id = .error e) :
    c.read catalog s = .error e := by
  have hfound : ∀ {x : SubscriptionId}, (s.subscription? x).map (·.account) = some id →
      ∃ y, s.subscription x = .ok y ∧ y.account = id := by
    intro x hx
    obtain ⟨y, hy, hid⟩ := Option.map_eq_some_iff.mp hx
    refine ⟨y, ?_, hid⟩
    unfold Store.subscription
    rw [hy]
  cases c with
  | create account plan =>
      obtain rfl : account = id := Option.some.inj hc
      simp only [read, he]
      rfl
  | changePlan subscription plan date =>
      obtain ⟨y, hy, rfl⟩ := hfound hc
      simp only [read, hy]
      show (s.account y.account >>= _) = _
      rw [he]
      rfl
  | cancel subscription date =>
      obtain ⟨y, hy, rfl⟩ := hfound hc
      simp only [read, hy]
      show (s.account y.account >>= _) = _
      rw [he]
      rfl

namespace System

variable {s t : System} {w : Works} {m : Submitted} {b : Call Subscription} {r : Registry}
  {c : Command} {x : CallContext}

/-! ## The newest command -/

/-- A state with one command more, which is the newest, and its call. -/
def adding (s : System) (w : Works) (m : Submitted) (b : Call Subscription) (r : Registry) :
    System :=
  { s with
    works := w
    commands := s.commands ++ [m]
    desk := { s.desk with calls := s.desk.calls ++ [b], registry := r } }

section Newest

variable (hlen : s.desk.calls.length = s.commands.length)
include hlen

theorem step_submit (x : CallContext) (completing : Bool) (timeout : Nat) (c : Command) :
    s.step (.submit x completing timeout c) =
      s.adding s.works ⟨c, x, .reading⟩ ⟨x, completing, timeout, s.isClosed, .arrived⟩
        s.desk.registry := by
  simp only [step]
  split
  · rename_i h
    have h : s.isClosed = true := h
    rw [h, ← hlen]
    simp only [atDesk, Desk.step]
    rw [Desk.onCall_last rfl]
    rfl
  · rename_i h
    have h : s.isClosed = false := Bool.eq_false_iff.mpr h
    rw [h]
    rfl

theorem atDesk_adding {h : Completion.Happening Subscription}
    {f : Call Subscription → Registry → Call Subscription × Registry}
    (hf : (s.adding w m b r).desk.step h = (s.adding w m b r).desk.onCall s.commands.length f) :
    (s.adding w m b r).atDesk h = s.adding w m (f b r).1 (f b r).2 := by
  have hlast : (s.adding w m b r).desk.calls = s.desk.calls ++ [b] := rfl
  unfold atDesk
  rw [hf, ← hlen, Desk.onCall_last hlast]
  rfl

omit hlen in
theorem commands_adding : (s.adding w m b r).commands[s.commands.length]? = some m :=
  getElem?_concat_eq_some_iff.mpr (Or.inr ⟨rfl, rfl⟩)

theorem call_adding : (s.adding w m b r).desk.calls[s.commands.length]? = some b :=
  getElem?_concat_eq_some_iff.mpr (Or.inr ⟨hlen.symm, rfl⟩)

theorem start_adding : (s.adding w m b r).step (.start s.commands.length) =
    s.adding w m (b.start r s.desk.now ((s.adding w m b r).tagsFor m.context)).1
      (b.start r s.desk.now ((s.adding w m b r).tagsFor m.context)).2 := by
  simp only [step, commands_adding]
  exact atDesk_adding hlen
    (f := fun c r' => c.start r' s.desk.now ((s.adding w m b r).tagsFor m.context)) rfl

theorem enlist_adding : (s.adding w m b r).step (.enlist s.commands.length) =
    s.adding w m (b.enlist r s.desk.now).1 (b.enlist r s.desk.now).2 :=
  atDesk_adding hlen (f := fun c r => c.enlist r s.desk.now) rfl

theorem work_running {v : Option Completion.Waiter} (hb : b.phase = .running v) :
    (s.adding w m b r).step (.work s.commands.length) =
      s.adding (m.command.step m.context s.catalog w m.stage).2
        { m with stage := (m.command.step m.context s.catalog w m.stage).1 } b r := by
  have hlets : (s.adding w m b r).letsRun s.commands.length = true := by
    simp only [letsRun, call_adding hlen, hb]
  simp only [step, commands_adding, hlets, if_true]
  simp only [adding, List.set_append_right _ _ (Nat.le_refl _), Nat.sub_self,
    List.set_cons_zero]

theorem work_ended {e : Completion.Ending Subscription} {time : Nat}
    (hb : b.phase = .ended e time) :
    (s.adding w m b r).step (.work s.commands.length) = s.adding w m b r := by
  have hlets : (s.adding w m b r).letsRun s.commands.length = false := by
    simp only [letsRun, call_adding hlen, hb]
  simp only [step, commands_adding, hlets, Bool.false_eq_true, if_false]

end Newest

/-- What a call that let its command run shows of how the command has ended. -/
def Shows (stage : Stage) (p : Phase Subscription) : Prop :=
  match stage with
  | .done (.error e) _ => ∃ time, p = .ended (.answered (.error (.ofDomain e))) time
  | .done (.ok _) _ => p.Accepted
  | .crashed => ∃ time, p = .ended .dropped time
  | _ => False

theorem Shows.not_busy {stage : Stage} {p : Phase Subscription} (h : Shows stage p) :
    p.isBusy = false := by
  cases stage with
  | done result run =>
      cases result with
      | error e =>
          obtain ⟨time, rfl⟩ := h
          rfl
      | ok done => exact Phase.Accepted.not_busy h
  | crashed =>
      obtain ⟨time, rfl⟩ := h
      rfl
  | _ => cases h

/-- A command whose call lets it run goes through all its stages, and the call shows how it has
ended. -/
theorem conclude_running (hlen : s.desk.calls.length = s.commands.length)
    {v : Option Completion.Waiter} (hb : b.phase = .running v) :
    ∃ b' r', (s.adding w ⟨c, x, .reading⟩ b r).steps
        [.work s.commands.length, .work s.commands.length, .work s.commands.length,
          .work s.commands.length, .conclude s.commands.length] =
        s.adding (c.run x s.catalog w).2 ⟨c, x, (c.run x s.catalog w).1⟩ b' r' ∧
      Shows (c.run x s.catalog w).1 b'.phase := by
  simp only [steps, List.foldl_cons, List.foldl_nil, work_running hlen hb]
  show ∃ b' r', (s.adding (c.run x s.catalog w).2 ⟨c, x, (c.run x s.catalog w).1⟩ b r).step
    (.conclude s.commands.length) = _ ∧ _
  have hwent := c.run_went x s.catalog w
  revert hwent
  generalize c.run x s.catalog w = p
  obtain ⟨stage, w'⟩ := p
  intro hwent
  simp only [step, commands_adding]
  cases hwent with
  | @refused e =>
      refine ⟨_, _, atDesk_adding hlen (f := fun c r =>
        c.conclude r s.desk.now s.desk.maxWait (.error e)) rfl, s.desk.now, ?_⟩
      simp only [Call.conclude, hb]
      rfl
  | crashed =>
      refine ⟨_, _, atDesk_adding hlen (f := fun c r => c.drop r s.desk.now) rfl, s.desk.now, ?_⟩
      simp only [Call.drop, hb, Phase.isEnded]
      rfl
  | @carriedOut _ done _ _ _ =>
      exact ⟨_, _, atDesk_adding hlen (f := fun c r =>
        c.conclude r s.desk.now s.desk.maxWait (.ok done)) rfl, Call.accepted_conclude hb done⟩

/-- A command whose call has ended does not even begin. -/
theorem conclude_ended (hlen : s.desk.calls.length = s.commands.length)
    {e : Completion.Ending Subscription} {time : Nat} (hb : b.phase = .ended e time) :
    (s.adding w ⟨c, x, .reading⟩ b r).steps
        [.work s.commands.length, .work s.commands.length, .work s.commands.length,
          .work s.commands.length, .conclude s.commands.length] =
      s.adding w ⟨c, x, .reading⟩ b r := by
  simp only [steps, List.foldl_cons, List.foldl_nil, work_ended hlen hb]
  simp only [step, commands_adding]

/-- However long its caller waits, a command that is submitted makes of the works what it makes of
them on its own. Its call shows how it has ended, unless its token is taken. -/
theorem submit_shows (hlen : s.desk.calls.length = s.commands.length) {id : AccountId}
    (hx : x.account = some id) (hc : c.account? s.store = some id)
    (hfree : s.desk.registry.contains x.token = false) (completing : Bool) (timeout : Nat) :
    ∃ m b r, (s.submit x completing timeout c).2 = s.adding (c.run x s.catalog s.works).2 m b r ∧
      Shows (c.run x s.catalog s.works).1 b.phase := by
  unfold submit
  show ∃ m b r, ((((s.step (.submit x completing timeout c)).step (.start s.commands.length)).step
    (.enlist s.commands.length)).steps _) = _ ∧ _
  rw [step_submit hlen, start_adding hlen, enlist_adding hlen]
  have htags : ∀ b, (s.adding s.works ⟨c, x, .reading⟩ b s.desk.registry).tagsFor x =
      (s.store.account id).map (·.tags) := by
    intro b
    unfold tagsFor
    rw [hx]
    rfl
  cases completing with
  | false =>
      simp only [Call.start, Bool.false_eq_true, if_false, Call.enlist]
      obtain ⟨b', r', hstep, hshows⟩ := conclude_running (c := c) (x := x) (w := s.works)
        (b := ⟨x, false, timeout, s.isClosed, .running none⟩) (r := s.desk.registry) hlen rfl
      exact ⟨_, b', r', hstep, hshows⟩
  | true =>
      simp only [htags]
      cases ha : s.store.account id with
      | error e =>
          -- What the call does not find the command would not have found either.
          have hrun : c.run x s.catalog s.works = (.done (.error e) none, s.works) := by
            have hread : c.read s.catalog s.works.store = .error e := Command.read_error hc ha
            simp only [Command.run, Command.step, hread]
          rw [hrun]
          simp only [Call.start, hx, if_true, Except.map, Call.fail, Call.leave, Call.enlist]
          exact ⟨_, _, s.desk.registry, conclude_ended (b := ⟨x, true, timeout, s.isClosed,
            .ended (.answered (.error (.ofDomain e))) s.desk.now⟩) hlen rfl, s.desk.now, rfl⟩
      | ok a =>
          have hregister := Completion.Registry.register_eq_ok_iff
            (r := (s.desk.registry.make x.token a.tags).2)
            (w := (s.desk.registry.make x.token a.tags).1)
            |>.mpr ⟨Completion.Registry.contains_eq_false_iff.mp hfree, rfl⟩
          simp only [Call.start, hx, if_true, Except.map, Call.enlist, hregister]
          obtain ⟨b', r', hstep, hshows⟩ := conclude_running (c := c) (x := x) (w := s.works)
            (b := ⟨x, true, timeout, s.isClosed,
              .running (some (s.desk.registry.make x.token a.tags).1)⟩) hlen rfl
          exact ⟨_, b', r', hstep, hshows⟩

/-! ## What comes afterwards -/

theorem callIsBusy_eq (s : System) :
    s.callIsBusy = (s.desk.calls.map (·.phase.isBusy)).any id := by
  unfold callIsBusy
  rw [List.any_map]
  refine congrArg s.desk.calls.any (funext fun c => ?_)
  show _ = c.phase.isBusy
  cases c.phase <;> rfl

/-- Two states that differ only in what is registered, and in calls that have nothing to do. -/
structure Level (s t : System) : Prop where
  works : t.works = s.works
  closing : t.closing = s.closing
  busy : t.desk.calls.map (·.phase.isBusy) = s.desk.calls.map (·.phase.isBusy)

namespace Level

variable (h : s.Level t)
include h

theorem isBusy : t.isBusy = s.isBusy := by
  unfold System.isBusy runIsDue time
  rw [callIsBusy_eq, callIsBusy_eq, h.works, h.busy]

theorem isClosed : t.isClosed = s.isClosed := by
  unfold System.isClosed time
  rw [h.works, h.closing]

theorem nextMoment? : t.nextMoment? = s.nextMoment? := by
  unfold System.nextMoment? time
  rw [h.works, h.closing]

theorem poll (i : Nat) : (s.step (.poll i)).Level (t.step (.poll i)) where
  works := h.works
  closing := h.closing
  busy := by
    refine (Desk.map_onCall (fun c r => ?_) i).trans
      (h.busy.trans (Desk.map_onCall (fun c r => ?_) i).symm)
    · exact Call.isBusy_poll
    · exact Call.isBusy_poll

theorem drop (i : Nat) : (s.step (.drop i)).Level (t.step (.drop i)) where
  works := h.works
  closing := h.closing
  busy := by
    refine (Desk.map_onCall_set (v := false) (fun c r => ?_) i).trans ?_
    · exact Call.isBusy_drop
    · rw [h.busy]
      exact (Desk.map_onCall_set (fun c r => Call.isBusy_drop) i).symm

theorem stepRun (n : Nat) : (s.step (.stepRun n)).Level (t.step (.stepRun n)) where
  works := congrArg (·.stepRun n) h.works
  closing := h.closing
  busy := h.busy

theorem setClock (now : Instant) : (s.step (.setClock now)).Level (t.step (.setClock now)) where
  works := congrArg (·.setClock now) h.works
  closing := h.closing
  busy := h.busy

theorem deliver : (s.step .deliver).Level (t.step .deliver) := by
  simp only [step, h.works]
  cases s.works.published with
  | nil => exact h
  | cons p rest => exact ⟨rfl, h.closing, h.busy⟩

theorem interruptAll : s.interruptAll.Level t.interruptAll where
  works := h.works
  closing := h.closing
  busy := by
    refine (Desk.map_onAllCalls fun c r => ?_).trans
      (h.busy.trans (Desk.map_onAllCalls fun c r => ?_).symm)
    · rfl
    · rfl

theorem shutDown : (s.step .shutDown).Level (t.step .shutDown) := by
  refine interruptAll ⟨h.works, ?_, h.busy⟩
  unfold time
  rw [h.works, h.closing]

theorem closeAfter (delay : Nat) : (s.closeAfter delay).Level (t.closeAfter delay) where
  works := h.works
  closing := by
    unfold System.closeAfter time
    rw [h.works, h.closing]
  busy := h.busy

theorem passTo (moment : Nat) : (s.passTo moment).Level (t.passTo moment) := by
  unfold System.passTo
  rw [h.nextMoment?]
  extract_lets reached later later'
  have hlater : System.Level later later' :=
    ⟨congrArg (·.passTo reached) h.works, h.closing, (Desk.map_isBusy_advance reached).trans
      (h.busy.trans (Desk.map_isBusy_advance reached).symm)⟩
  rw [hlater.isClosed]
  split
  · exact hlater.interruptAll
  · exact hlater

theorem pass (moment : Nat) : (s.step (.pass moment)).Level (t.step (.pass moment)) := by
  simp only [step, h.isBusy]
  split
  · exact h
  · exact h.passTo moment

end Level

theorem level_adding {m m' : Submitted} {b b' : Call Subscription} {r r' : Registry}
    (h : b.phase.isBusy = false) (h' : b'.phase.isBusy = false) :
    (s.adding w m b r).Level (s.adding w m' b' r') := by
  refine ⟨rfl, rfl, ?_⟩
  simp only [adding, List.map_append, List.map_cons, List.map_nil, h, h']

/-- Nothing that comes later changes how a call has ended. -/
theorem Leads.ending {i : Nat} {e : Completion.Ending Subscription} {time : Nat} (h : s.Leads t)
    (hb : s.desk.calls[i]? = some b) (hp : b.phase = .ended e time) : t.ending? i = some e := by
  obtain ⟨b', hb', hp'⟩ := h.phase (P := (· = .ended e time))
    (fun hc hafter => hafter.of_ended hc) hb hp
  unfold ending?
  rw [hb']
  have hp' : b'.phase = .ended e time := hp'
  simp only [hp']

end System

end Service

end Billing
