import Billing.Bus.Listener
import Billing.Completion.Registry
import Billing.Envelope
import Billing.Proofs.Bus.Deliveries

/-!
# From the bus to the waiters

Two workers carry what is published to the registry of waiters, while everybody else goes on using
bus and registry, and the listener may be stopped at any time. What has been dispatched is always
how the published envelopes begin. Nothing is dispatched once the listener has been shut down, and
nothing is missing when it was not and nobody has anything left to carry.
-/

namespace Billing.Bus

open Completion

/-! ## The system -/

/-- What the owner of a listener has done with it. -/
inductive Handle where
  /-- The listener is to go on. -/
  | kept
  /-- It has been told to stop, by a shutdown or because its handle was dropped. -/
  | stopping
  /-- The shutdown has returned. -/
  | returned
  deriving DecidableEq

/-- A listener at work between a bus and a registry. -/
structure Relay where
  bus : Broadcast BillingEnvelope
  listener : Listener BillingEnvelope
  /-- The envelope that the listener has taken and is about to dispatch. -/
  taken : Option BillingEnvelope
  registry : Registry
  handle : Handle
  /-- The envelopes published since the listener was spawned, in order. -/
  published : List BillingEnvelope
  /-- The envelopes dispatched into the registry, in order. -/
  dispatched : List BillingEnvelope

/-- What happens next. -/
inductive Relay.Turn where
  /-- Somebody else uses the bus. -/
  | use (u : Use BillingEnvelope)
  /-- The bus is closed. -/
  | close
  /-- Somebody else uses the registry. -/
  | register (f : Registry → Registry)
  /-- The forwarder takes an envelope from the bus. -/
  | take
  /-- The forwarder puts the envelope in its hand among the signals. -/
  | forward
  /-- The listener takes a signal. -/
  | listen
  /-- The listener dispatches the envelope that it has taken. -/
  | dispatch
  /-- The owner of the listener tells it to stop. -/
  | stop
  /-- The shutdown returns, if the listener has stopped. -/
  | join

/-- A use of the bus that nobody but the holder of a subscription can make. -/
def Use.isOwn {μ : Type} (n : Nat) : Use μ → Bool
  | .drop k => k == n
  | .receive k => k == n
  | _ => false

def Signal.message? {μ : Type} : Signal μ → Option μ
  | .message m => some m
  | .stop => none

namespace Relay

/-- A listener that has just been spawned on a bus. -/
def spawned (b : Broadcast BillingEnvelope) (r : Registry) : Relay :=
  let (l, b) := Listener.spawn b
  ⟨b, l, none, r, .kept, [], []⟩

/-- What has yet to be taken from the bus. -/
def backlog (s : Relay) : List BillingEnvelope := s.bus.queue s.listener.subscription

/-- What a turn makes of the system. What nobody can do changes nothing: others cannot use the
subscription of the listener, nobody publishes at a closed bus, the listener dispatches before it
takes the next signal, and a shutdown returns after the listener has stopped. -/
def step (s : Relay) : Turn → Relay
  | .use u =>
    if u.isOwn s.listener.subscription ∨ (u.message?.isSome ∧ s.bus.isOpen = false) then s
    else { s with bus := s.bus.use u, published := s.published ++ u.message?.toList }
  | .close => { s with bus := s.bus.close }
  | .register f => { s with registry := f s.registry }
  | .take => { s with bus := (s.listener.take s.bus).2, listener := (s.listener.take s.bus).1 }
  | .forward =>
    { s with bus := (s.listener.forward s.bus).2, listener := (s.listener.forward s.bus).1 }
  | .listen =>
    if s.taken.isSome then s
    else { s with taken := s.listener.listen.1, listener := s.listener.listen.2 }
  | .dispatch =>
    match s.taken with
    | none => s
    | some e =>
      { s with
        taken := none
        registry := (s.registry.dispatch e.token e.payload).2
        dispatched := s.dispatched ++ [e] }
  | .stop =>
    if s.handle = .kept then
      { s with listener := s.listener.requestStop, handle := .stopping }
    else s
  | .join =>
    if s.handle = .stopping ∧ s.listener.listening = false ∧ s.taken = none then
      { s with handle := .returned }
    else s

def run (s : Relay) (ts : List Turn) : Relay := ts.foldl step s

/-! ## What is on its way -/

/-- The envelopes that are on their way from the bus to the registry, the next to arrive first. -/
def underway (s : Relay) : List BillingEnvelope :=
  s.taken.toList ++ s.listener.signals.filterMap Signal.message? ++ s.listener.hand.toList ++ s.backlog

/-- While the listener has not stopped, what was published has been dispatched or is on its way. -/
structure Carries (s : Relay) : Prop where
  sound : s.bus.isOpen = true → s.bus.Sound
  made : s.listener.subscription < s.bus.subscriptions.length
  held : s.listener.forwarding = true → s.bus.isHeld s.listener.subscription = true
  dropped : s.listener.forwarding = false →
    s.bus.subscriptions[s.listener.subscription]? = some ⟨[], false⟩
  /-- The forwarder stops for want of messages only once no more can come. -/
  forwarding : s.listener.listening = true → s.listener.forwarding = true ∨ s.bus.isOpen = false
  whole : s.listener.listening = true → s.dispatched ++ s.underway = s.published
  front : s.dispatched ++ s.taken.toList <+: s.published
  ended : s.listener.listening = false → s.taken = none
  kept : s.handle = .kept → s.listener.listening = true ∧ .stop ∉ s.listener.signals
  returned : s.handle = .returned → s.listener.listening = false

variable {s : Relay}

theorem carries_spawned (us : List (Use BillingEnvelope)) (r : Registry) :
    Carries (spawned (Broadcast.empty.run us) r) := by
  have hsound : (Broadcast.empty.run us : Broadcast BillingEnvelope).Sound := .run .empty us
  have hnew : (spawned (Broadcast.empty.run us) r).bus.subscriptions[
      (spawned (Broadcast.empty.run us) r).listener.subscription]? = some .fresh := by
    simp [spawned, Listener.spawn, Broadcast.subscribe, Subscription.fresh]
  exact {
    sound := fun _ => hsound.use .subscribe
    made := (List.getElem?_eq_some_iff.mp hnew).1
    held := fun _ => Broadcast.isHeld_iff.mpr ⟨_, hnew, rfl⟩
    dropped := fun hf => by cases hf
    forwarding := fun _ => .inl rfl
    whole := fun _ => by
      have hq : (spawned (Broadcast.empty.run us) r).backlog = [] := by
        simp [backlog, Broadcast.queue, hnew, Subscription.fresh]
      rw [underway, hq]
      rfl
    front := List.nil_prefix
    ended := fun h => by cases h
    kept := fun _ => ⟨rfl, List.not_mem_nil⟩
    returned := fun h => by cases h }

/-! ## Every turn -/

theorem concern?_of_not_own {μ : Type} {n : Nat} {u : Use μ} (h : u.isOwn n = false) :
    u.concern? n = u.message?.map .message := by
  cases u with
  | subscribe => rfl
  | drop k => exact if_neg (by simpa [Use.isOwn] using h)
  | publish m => rfl
  | receive k => exact if_neg (by simpa [Use.isOwn] using h)

theorem Carries.sound_use (h : Carries s) (u : Use BillingEnvelope)
    (ho : (s.bus.use u).isOpen = true) : (s.bus.use u).Sound :=
  (h.sound (Broadcast.isOpen_use s.bus u ▸ ho)).use u

theorem Carries.made_use (h : Carries s) (u : Use BillingEnvelope) :
    s.listener.subscription < (s.bus.use u).subscriptions.length := by
  rw [Broadcast.length_subscriptions_use]
  exact Nat.lt_add_right _ h.made

theorem Carries.held_of_some (h : Carries s) {t : Subscription BillingEnvelope}
    (ht : s.bus.subscriptions[s.listener.subscription]? = some t)
    (hf : s.listener.forwarding = true) : t.held = true := by
  obtain ⟨t', ht', hheld⟩ := Broadcast.isHeld_iff.mp (h.held hf)
  cases ht.symm.trans ht'
  exact hheld

/-- Whatever others do at the bus, the subscription of the listener only gets what is published. -/
theorem Carries.use (h : Carries s) (u : Use BillingEnvelope) : Carries (s.step (.use u)) := by
  simp only [Relay.step]
  split
  · exact h
  · rename_i hu
    obtain ⟨hown, hopen⟩ := not_or.mp hu
    rw [Bool.not_eq_true] at hown
    have hopen : u.message? = none ∨ s.bus.isOpen = true := by
      cases hm : u.message? with
      | none => exact .inl rfl
      | some m => exact .inr (by simpa [hm] using hopen)
    obtain ⟨t, ht⟩ : ∃ t, s.bus.subscriptions[s.listener.subscription]? = some t :=
      ⟨_, List.getElem?_eq_getElem h.made⟩
    -- What somebody else does concerns it only if a message is published.
    have hnew : (s.bus.use u).subscriptions[s.listener.subscription]? =
        some ((u.message?.map Concern.message).toList.foldl .after t) := by
      rw [← concern?_of_not_own hown]
      rcases hopen with hm | hopen
      · exact Broadcast.subscription_use_of_unpublished ht hm
      · exact (h.sound hopen).subscription_use ht u
    refine { h with
      sound := h.sound_use u
      made := h.made_use u
      held := fun hf => Broadcast.isHeld_iff.mpr ⟨_, hnew, ?_⟩
      dropped := fun hf => ?_
      forwarding := fun hl => by rw [Broadcast.isOpen_use]; exact h.forwarding hl
      whole := fun hl => ?_
      front := h.front.trans (List.prefix_append _ _) }
    · have hheld := h.held_of_some ht hf
      cases u.message? <;> simp [Subscription.after, hheld]
    · cases ht.symm.trans (h.dropped hf)
      rw [hnew]
      cases u.message? <;> simp [Subscription.after]
    · have hq : (s.bus.use u).queue s.listener.subscription =
          s.bus.queue s.listener.subscription ++ u.message?.toList := by
        rw [Broadcast.queue_of_some hnew, Broadcast.queue_of_some ht]
        rcases hopen with hm | hopen
        · simp [hm]
        · have hf : s.listener.forwarding = true := (h.forwarding hl).resolve_right (by simp [hopen])
          have hheld := h.held_of_some ht hf
          cases u.message? <;> simp [Subscription.after, hheld]
      rw [← h.whole hl]
      simp [underway, backlog, hq]

/-- The forwarder does not give up while the bus is open. -/
theorem Carries.take (h : Carries s) : Carries (s.step .take) := by
  simp only [Relay.step, Listener.take]
  split
  · rename_i hf
    obtain ⟨hf, hhand⟩ := hf
    have hhand : s.listener.hand = none := by simpa using hhand
    obtain ⟨t, ht, hheld⟩ := Broadcast.isHeld_iff.mp (h.held hf)
    have hcases := Broadcast.receive_cases s.bus s.listener.subscription
    cases hr : s.bus.receive s.listener.subscription with
    | mk r b =>
        have hb : s.bus.use (.receive s.listener.subscription) = b := congrArg Prod.snd hr
        rw [hr] at hcases
        rcases hcases with ⟨m, rfl, hq⟩ | ⟨rfl | rfl, rfl, hq⟩
        · have hnew := Broadcast.subscription_use_of_unpublished
            (u := .receive s.listener.subscription) ht rfl
          rw [hb] at hnew
          exact { h with
            sound := hb ▸ h.sound_use _
            made := hb ▸ h.made_use _
            held := fun _ => Broadcast.isHeld_iff.mpr
              ⟨_, hnew, by simpa [Use.concern?, Subscription.after] using hheld⟩
            dropped := fun hf' => by rw [hf] at hf'; cases hf'
            forwarding := fun _ => .inl hf
            whole := fun hl => by simpa [underway, backlog, hhand, hq] using h.whole hl }
        · exact h
        · -- The forwarder gives up, which it does not do at an open bus.
          have hclosed : s.bus.isOpen = false := by
            cases ho : s.bus.isOpen with
            | false => rfl
            | true =>
                have hnext := (h.sound ho).receive_fst (h.held hf)
                rw [hr, hq] at hnext
                cases hnext
          have hdrop := Broadcast.subscription_drop h.made
          exact { h with
            sound := h.sound_use (.drop s.listener.subscription)
            made := h.made_use (.drop s.listener.subscription)
            held := fun hf' => by cases hf'
            dropped := fun _ => hdrop
            forwarding := fun _ => .inr hclosed
            whole := fun hl => by
              simpa [underway, backlog, hq, Broadcast.queue_of_some hdrop] using h.whole hl }
  · exact h

theorem Carries.forward (h : Carries s) : Carries (s.step .forward) := by
  simp only [Relay.step, Listener.forward]
  split
  · exact h
  · rename_i m hm
    split
    · refine { h with whole := fun hl => ?_, kept := fun hk => ⟨(h.kept hk).1, ?_⟩ }
      · simpa [underway, hm, backlog, Signal.message?] using h.whole hl
      · simpa using (h.kept hk).2
    · rename_i hl
      exact { h with
        sound := h.sound_use (.drop s.listener.subscription)
        made := h.made_use (.drop s.listener.subscription)
        held := fun hf => by cases hf
        dropped := fun _ => Broadcast.subscription_drop h.made
        forwarding := fun hl' => absurd hl' hl
        whole := fun hl' => absurd hl' hl }

theorem Carries.listen (h : Carries s) : Carries (s.step .listen) := by
  simp only [Relay.step]
  split
  · exact h
  · rename_i ht
    have ht : s.taken = none := by simpa using ht
    have hfront : s.dispatched <+: s.published := by simpa [ht] using h.front
    unfold Listener.listen
    split
    · rename_i hl
      have hwhole := h.whole hl
      split
      · rename_i hs
        exact { h with
          whole := fun _ => by simpa [underway, ht, backlog] using hwhole
          front := by simpa using hfront
          ended := fun _ => rfl }
      · rename_i m signals hs
        exact { h with
          whole := fun _ => by
            simpa [underway, ht, hs, Signal.message?, backlog] using hwhole
          front := ⟨_, by
            simpa [underway, ht, hs, Signal.message?, backlog] using hwhole⟩
          ended := fun hl' => by rw [hl] at hl'; cases hl'
          kept := fun hk => ⟨hl, fun hm => (h.kept hk).2 (hs ▸ List.mem_cons_of_mem _ hm)⟩ }
      · -- The signal to stop: the owner has given it, and what is behind it is lost.
        rename_i signals hs
        exact { h with
          forwarding := fun h => by cases h
          whole := fun h => by cases h
          front := by simpa using hfront
          ended := fun _ => rfl
          kept := fun hk => absurd (hs ▸ List.mem_cons_self) (h.kept hk).2
          returned := fun _ => rfl }
    · rename_i hl
      exact { h with
        whole := fun hl' => absurd hl' hl
        front := by simpa using hfront
        ended := fun _ => rfl }

theorem Carries.dispatch (h : Carries s) : Carries (s.step .dispatch) := by
  simp only [Relay.step]
  split
  · exact h
  · rename_i e ht
    have hlist : s.listener.listening = true := by
      cases hl : s.listener.listening with
      | true => rfl
      | false => simp [h.ended hl] at ht
    refine { h with whole := fun hl => ?_, front := ?_, ended := fun _ => rfl }
    · simpa [underway, ht, backlog] using h.whole hl
    · simpa [ht] using h.front

theorem Carries.stop (h : Carries s) : Carries (s.step .stop) := by
  simp only [Relay.step]
  split
  · rename_i hk
    obtain ⟨hl, _⟩ := h.kept hk
    have hr : s.listener.requestStop =
        { s.listener with signals := s.listener.signals ++ [.stop] } := if_pos hl
    rw [hr]
    refine { h with
      whole := fun hl => ?_
      kept := fun hk => by cases hk
      returned := fun hr => by cases hr }
    -- The signal is behind all that is on its way, and brings no message.
    have hstop : [Signal.stop].filterMap (Signal.message? (μ := BillingEnvelope)) = [] := rfl
    simpa [underway, backlog, hstop] using h.whole hl
  · exact h

theorem Carries.join (h : Carries s) : Carries (s.step .join) := by
  simp only [Relay.step]
  split
  · rename_i hj
    exact { h with
      kept := fun hk => by cases hk
      returned := fun _ => hj.2.1 }
  · exact h

theorem Carries.close (h : Carries s) : Carries (s.step .close) :=
  { h with
    sound := fun ho => by cases ho
    forwarding := fun _ => .inr rfl }

theorem Carries.step (h : Carries s) (t : Turn) : Carries (s.step t) := by
  cases t with
  | use u => exact h.use u
  | close => exact h.close
  | register f => exact { h with }
  | take => exact h.take
  | forward => exact h.forward
  | listen => exact h.listen
  | dispatch => exact h.dispatch
  | stop => exact h.stop
  | join => exact h.join

theorem Carries.run (h : Carries s) (ts : List Turn) : Carries (s.run ts) := by
  induction ts generalizing s with
  | nil => exact h
  | cons t ts ih => exact ih (h.step t)

/-! ## After the shutdown -/

/-- The shutdown has returned, so the listener has stopped and has nothing to dispatch. -/
structure IsOver (s : Relay) : Prop where
  returned : s.handle = .returned
  stopped : s.listener.listening = false
  idle : s.taken = none

theorem Carries.isOver (h : Carries s) (hr : s.handle = .returned) : IsOver s :=
  ⟨hr, h.returned hr, h.ended (h.returned hr)⟩

theorem listening_take (l : Listener BillingEnvelope) (b : Broadcast BillingEnvelope) :
    (l.take b).1.listening = l.listening := by
  unfold Listener.take
  split
  · split <;> rfl
  · rfl

theorem listening_forward (l : Listener BillingEnvelope) (b : Broadcast BillingEnvelope) :
    (l.forward b).1.listening = l.listening := by
  unfold Listener.forward
  split
  · rfl
  · split <;> rfl

theorem listen_of_stopped {l : Listener BillingEnvelope} (h : l.listening = false) :
    l.listen = (none, l) := by simp [Listener.listen, h]

theorem IsOver.step (h : IsOver s) (t : Turn) :
    IsOver (s.step t) ∧ (s.step t).dispatched = s.dispatched := by
  cases t with
  | use u =>
      simp only [Relay.step]
      split
      · exact ⟨h, rfl⟩
      · exact ⟨⟨h.returned, h.stopped, h.idle⟩, rfl⟩
  | close => exact ⟨⟨h.returned, h.stopped, h.idle⟩, rfl⟩
  | register f => exact ⟨⟨h.returned, h.stopped, h.idle⟩, rfl⟩
  | take => exact ⟨⟨h.returned, (listening_take ..).trans h.stopped, h.idle⟩, rfl⟩
  | forward => exact ⟨⟨h.returned, (listening_forward ..).trans h.stopped, h.idle⟩, rfl⟩
  | listen =>
      simp only [Relay.step, listen_of_stopped h.stopped]
      split
      · exact ⟨h, rfl⟩
      · exact ⟨⟨h.returned, h.stopped, rfl⟩, rfl⟩
  | dispatch =>
      simp only [Relay.step, h.idle]
      exact ⟨h, trivial⟩
  | stop =>
      simp only [Relay.step, h.returned, reduceCtorEq, if_false]
      exact ⟨h, trivial⟩
  | join =>
      simp only [Relay.step, h.returned, reduceCtorEq, false_and, if_false]
      exact ⟨h, trivial⟩

theorem IsOver.run (h : IsOver s) (ts : List Turn) : (s.run ts).dispatched = s.dispatched := by
  induction ts generalizing s with
  | nil => rfl
  | cons t ts ih => exact (ih (h.step t).1).trans (h.step t).2

/-! ## Nothing is stuck -/

/-- How many turns of the workers it takes until everything has arrived: from the bus an envelope is
taken, forwarded, listened to and dispatched. -/
def turnsLeft (s : Relay) : Nat :=
  4 * s.backlog.length + 3 * s.listener.hand.toList.length + 2 * s.listener.signals.length
    + s.taken.toList.length

/-- What the workers do on their own. -/
def Turn.isWork : Turn → Bool
  | .take => true
  | .forward => true
  | .listen => true
  | .dispatch => true
  | _ => false

/-- Nothing is on its way, and nobody has anything in hand. -/
structure IsIdle (s : Relay) : Prop where
  backlog : s.backlog = []
  hand : s.listener.hand = none
  signals : s.listener.signals = []
  taken : s.taken = none

/-- While anything is on its way, one of the workers brings it further. -/
theorem Carries.exists_work (h : Carries s) (hk : s.handle = .kept) (hs : ¬ IsIdle s) :
    ∃ t : Turn, t.isWork = true ∧ (s.step t).handle = .kept ∧
      (s.step t).published = s.published ∧ (s.step t).turnsLeft < s.turnsLeft := by
  obtain ⟨hl, hstop⟩ := h.kept hk
  cases ht : s.taken with
  | some e =>
      refine ⟨.dispatch, rfl, ?_⟩
      simp only [Relay.step, ht]
      exact ⟨hk, trivial, by simp [turnsLeft, backlog, ht]⟩
  | none =>
    cases hq : s.listener.signals with
    | cons signal signals =>
        cases signal with
        | stop => exact absurd (hq ▸ List.mem_cons_self) hstop
        | message m =>
            refine ⟨.listen, rfl, ?_⟩
            simp only [Relay.step, ht, Listener.listen, hl, hq, Option.isSome_none, Bool.false_eq_true,
              if_false, if_true]
            exact ⟨hk, trivial, by simp [turnsLeft, backlog, ht, hq]; omega⟩
    | nil =>
        cases hh : s.listener.hand with
        | some m =>
            refine ⟨.forward, rfl, ?_⟩
            simp only [Relay.step, Listener.forward, hh, hl]
            exact ⟨hk, trivial, by simp [turnsLeft, backlog, hh, hq, ht]⟩
        | none =>
            have hb : s.backlog ≠ [] := fun hb => hs ⟨hb, hh, hq, ht⟩
            have hf : s.listener.forwarding = true := by
              cases hf : s.listener.forwarding with
              | true => rfl
              | false => exact absurd (Broadcast.queue_of_some (h.dropped hf)) hb
            refine ⟨.take, rfl, hk, rfl, ?_⟩
            have hcases := Broadcast.receive_cases s.bus s.listener.subscription
            cases hr : s.bus.receive s.listener.subscription with
            | mk r b =>
                rw [hr] at hcases
                rcases hcases with ⟨m, rfl, hm⟩ | ⟨-, -, hm⟩
                · simp [Relay.step, Listener.take, turnsLeft, backlog, hf, hh, hr, hm]
                  omega
                · exact absurd hm hb

theorem Carries.complete (h : Carries s) (hk : s.handle = .kept) (hi : IsIdle s) :
    s.dispatched = s.published := by
  rw [← h.whole (h.kept hk).1]
  simp [underway, hi.backlog, hi.hand, hi.signals, hi.taken]

theorem Carries.exists_idle (h : Carries s) (hk : s.handle = .kept) :
    ∃ ts : List Turn, (∀ t ∈ ts, t.isWork = true) ∧ IsIdle (s.run ts) ∧
      (s.run ts).handle = .kept ∧ (s.run ts).published = s.published := by
  -- The induction is on the turns that are left, each turn of a worker being one less.
  induction hn : s.turnsLeft using Nat.strongRecOn generalizing s with
  | _ n ih =>
      by_cases hs : IsIdle s
      · exact ⟨[], by simp, hs, hk, rfl⟩
      · obtain ⟨t, ht, hk', hp, hlt⟩ := h.exists_work hk hs
        obtain ⟨ts, hts, hi, hkept, hpub⟩ := ih _ (hn ▸ hlt) (h.step t) hk' rfl
        exact ⟨t :: ts, List.forall_mem_cons.mpr ⟨ht, hts⟩, hi, hkept, hpub.trans hp⟩

/-! ## The relay as a whole -/

/-- What may be relied on between the bus and the registry. -/
structure InOrder (s : Relay) : Prop where
  /-- What was dispatched is how the published envelopes begin: none is lost on the way, repeated
  or overtaken. -/
  front : s.dispatched <+: s.published
  /-- Nothing is dispatched once the shutdown has returned, whatever happens. -/
  final : s.handle = .returned → ∀ ts, (s.run ts).dispatched = s.dispatched
  /-- Nothing is missing when nobody told the listener to stop and nobody has anything to carry. -/
  complete : s.handle = .kept → IsIdle s → s.dispatched = s.published
  /-- The workers get there by themselves. -/
  arrives : s.handle = .kept → ∃ ts : List Turn, (∀ t ∈ ts, t.isWork = true) ∧
    IsIdle (s.run ts) ∧ (s.run ts).published = s.published ∧ (s.run ts).dispatched = s.published

/-- However a listener, its owner and everybody else at the bus and at the registry take turns, the
envelopes arrive in order. -/
theorem arrive_in_order (us : List (Use BillingEnvelope)) (r : Registry) (ts : List Turn) :
    InOrder ((spawned (Broadcast.empty.run us) r).run ts) := by
  have h := (carries_spawned us r).run ts
  refine {
    front := (List.prefix_append _ _).trans h.front
    final := fun hr => (h.isOver hr).run
    complete := h.complete
    arrives := fun hk => ?_ }
  obtain ⟨ts', hw, hi, hk', hp⟩ := h.exists_idle hk
  exact ⟨ts', hw, hi, hp, ((h.run ts').complete hk' hi).trans hp⟩

end Relay

end Billing.Bus
