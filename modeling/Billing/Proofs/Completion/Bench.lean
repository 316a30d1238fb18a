import Billing.Proofs.Completion.Shards

/-!
# The life of a waiter

A registry is asked this and that, together with the waiters that have been made for it. Whatever
else is asked, a waiter answers what is brought to it by one thing alone: whether anything that
settles was brought to it before, whether or not it was registered meanwhile.
-/

namespace Billing.Completion

namespace Registry

/-! ## Requests and replies -/

/-- What can be asked of a registry and of the waiters made so far, which are called by number. -/
inductive Request where
  | make (token : CorrelationToken) (tags : ControlTagSet)
  | register (n : Nat)
  | unregister (token : CorrelationToken)
  | dispatch (token : CorrelationToken) (event : DomainEvent)
  /-- The event is brought to the waiter itself. -/
  | deliver (n : Nat) (event : DomainEvent)
  | complete (n : Nat)
  | state (n : Nat)
  | contains (token : CorrelationToken)
  | size

inductive Reply where
  | made (w : Waiter)
  | registered
  | refused (e : AlreadyRegistered)
  | unregistered (w : Option Waiter)
  | delivered (d : Delivery)
  /-- Whether the waiter was armed until then. -/
  | completed (first : Bool)
  | state (s : WaiterState)
  | contains (found : Bool)
  | size (n : Nat)
  /-- No waiter of that number has been made. -/
  | unknown
  deriving DecidableEq

/-- What can happen to a waiter. -/
inductive Touch where
  | event (e : DomainEvent)
  | completion

/-- What a request brings to a waiter. -/
def Request.touch? : Request → Option Touch
  | .dispatch _ event => some (.event event)
  | .deliver _ event => some (.event event)
  | .complete _ => some .completion
  | _ => none

/-- Whether it settles for a waiter with these tags. -/
def Touch.settles (tags : ControlTagSet) : Touch → Bool
  | .event e => Completion.settles tags e
  | .completion => true

/-- How a waiter with these tags replies to it, by whether it had been completed before. -/
def Touch.reply (tags : ControlTagSet) (before : Bool) : Touch → Reply
  | .event e =>
    .delivered <|
      if Completion.settles tags e then if before then .alreadyCompleted else .completed
      else .pending
  | .completion => .completed !before

/-- The reply tells that the waiter has just been completed. -/
def Reply.isFirst : Reply → Bool
  | .delivered d => d == .completed
  | .completed first => first
  | _ => false

theorem Touch.isFirst_reply {tags : ControlTagSet} {before : Bool} {t : Touch} :
    (t.reply tags before).isFirst = (t.settles tags && !before) := by
  cases t with
  | event e =>
      simp only [reply, Reply.isFirst, settles]
      cases Completion.settles tags e <;> cases before <;> rfl
  | completion => rfl

theorem deliver_fst (r : Registry) (w : Waiter) (e : DomainEvent) :
    Reply.delivered (r.deliver w e).1 =
      (Touch.event e).reply w.tags (r.state w == .completed) := by
  simp only [deliver, Waiter.deliver, Decision.of, Touch.reply]
  cases settles w.tags e <;> cases r.state w <;> rfl

end Registry

open Registry (Request Reply Touch)

/-- A registry with all waiters that have been made for it, registered or not. -/
structure Bench where
  waiters : List Waiter
  registry : Registry

namespace Bench

def empty (hash : CorrelationToken → UInt64) : Bench := ⟨[], .empty hash⟩

def ask (b : Bench) : Request → Reply × Bench
  | .make token tags =>
    let (w, r) := b.registry.make token tags
    (.made w, ⟨b.waiters ++ [w], r⟩)
  | .register n =>
    match b.waiters[n]? with
    | none => (.unknown, b)
    | some w =>
      match b.registry.register w with
      | .ok r => (.registered, { b with registry := r })
      | .error e => (.refused e, b)
  | .unregister token =>
    let (w, r) := b.registry.unregister token
    (.unregistered w, { b with registry := r })
  | .dispatch token event =>
    let (d, r) := b.registry.dispatch token event
    (.delivered d, { b with registry := r })
  | .deliver n event =>
    match b.waiters[n]? with
    | none => (.unknown, b)
    | some w =>
      let (d, r) := b.registry.deliver w event
      (.delivered d, { b with registry := r })
  | .complete n =>
    match b.waiters[n]? with
    | none => (.unknown, b)
    | some w =>
      let (first, r) := b.registry.complete w
      (.completed first, { b with registry := r })
  | .state n =>
    match b.waiters[n]? with
    | none => (.unknown, b)
    | some w => (.state (b.registry.state w), b)
  | .contains token => (.contains (b.registry.contains token), b)
  | .size => (.size b.registry.size, b)

def run (b : Bench) (qs : List Request) : Bench := qs.foldl (fun b q => (b.ask q).2) b

/-- The replies to requests in order. -/
def replies : Bench → List Request → List Reply
  | _, [] => []
  | b, q :: qs => (b.ask q).1 :: replies (b.ask q).2 qs

/-- The waiter that a request reaches. -/
def addressee? (b : Bench) : Request → Option Waiter
  | .dispatch token _ => b.registry.find? token
  | .deliver n _ => b.waiters[n]?
  | .complete n => b.waiters[n]?
  | _ => none

/-- What a request brings to this waiter. -/
def touch? (b : Bench) (w : Waiter) (q : Request) : Option Touch :=
  if b.addressee? q = some w then q.touch? else none

/-- What is brought to a waiter in the course of requests, with its replies. -/
def life (w : Waiter) : Bench → List Request → List (Touch × Reply)
  | _, [] => []
  | b, q :: qs => ((b.touch? w q).map (·, (b.ask q).1)).toList ++ life w (b.ask q).2 qs

def isDone (b : Bench) (w : Waiter) : Bool := b.registry.state w == .completed

variable {b : Bench} {q : Request} {w v : Waiter} {n : Nat} {t : Touch}

theorem isDone_iff : b.isDone w = true ↔ w.number ∈ b.registry.completed := by
  rw [isDone, beq_iff_eq, Registry.state_eq_completed_iff]

/-! ## The waiters made so far -/

theorem waiters_ask : b.waiters <+: (b.ask q).2.waiters := by
  cases q with
  | make token tags => exact List.prefix_append ..
  | register n =>
      simp only [ask]
      split
      · exact List.prefix_rfl
      · split <;> exact List.prefix_rfl
  | unregister token => exact List.prefix_rfl
  | dispatch token event => exact List.prefix_rfl
  | deliver n event =>
      simp only [ask]
      split <;> exact List.prefix_rfl
  | complete n =>
      simp only [ask]
      split <;> exact List.prefix_rfl
  | state n =>
      simp only [ask]
      split <;> exact List.prefix_rfl
  | contains token => exact List.prefix_rfl
  | size => exact List.prefix_rfl

theorem waiters_run (qs : List Request) : b.waiters <+: (b.run qs).waiters := by
  induction qs generalizing b with
  | nil => exact List.prefix_rfl
  | cons q qs ih => exact waiters_ask.trans ih

/-- Waiters are numbered as they are made, and only such waiters are registered. -/
structure Sound (b : Bench) : Prop where
  numbered : ∀ n (w : Waiter), b.waiters[n]? = some w → w.number = n
  made : b.registry.made = b.waiters.length
  known : ∀ k w, b.registry.find? k = some w → w ∈ b.waiters

theorem sound_empty (hash : CorrelationToken → UInt64) : (empty hash).Sound where
  numbered := fun n w h => by simp [empty] at h
  made := rfl
  known := fun k w h => by simp [empty] at h

theorem Sound.eq_of_number (h : b.Sound) (hv : v ∈ b.waiters) (hw : w ∈ b.waiters)
    (hn : v.number = w.number) : v = w := by
  obtain ⟨i, hi⟩ := List.mem_iff_getElem?.mp hv
  obtain ⟨j, hj⟩ := List.mem_iff_getElem?.mp hw
  rw [← h.numbered i v hi, hn, h.numbered j w hj, hj] at hi
  exact (Option.some.inj hi).symm

theorem Sound.of_shards {r : Registry} (h : b.Sound) (hh : r.hash = b.registry.hash)
    (hs : r.shards = b.registry.shards) (hm : r.made = b.registry.made) :
    Sound { b with registry := r } where
  numbered := h.numbered
  made := hm.trans h.made
  known := fun k w hw => h.known k w ((Registry.find?_of_shards hh hs).symm.trans hw)

theorem Sound.ask (h : b.Sound) (q : Request) : (b.ask q).2.Sound := by
  cases q with
  | make token tags =>
      refine ⟨fun n w hw => ?_, by simp [Bench.ask, Registry.make, h.made], fun k w hw =>
        List.mem_append_left _ (h.known k w hw)⟩
      simp only [Bench.ask, Registry.make, List.getElem?_append] at hw
      split at hw
      · exact h.numbered n w hw
      · obtain ⟨hn, rfl⟩ : n - b.waiters.length = 0 ∧ _ = w := by
          simpa [List.getElem?_singleton] using hw
        simp only [h.made]
        omega
  | register n =>
      simp only [Bench.ask]
      split
      · exact h
      · rename_i w hw
        split
        · rename_i r hr
          obtain ⟨-, rfl⟩ := Registry.register_eq_ok_iff.mp hr
          refine { h with known := fun k v hv => ?_ }
          rw [Registry.find?_enter] at hv
          split at hv
          · cases hv
            exact List.mem_of_getElem? hw
          · exact h.known k v hv
        · exact h
  | unregister token =>
      refine { h with known := fun k v hv => ?_ }
      simp only [Bench.ask, Registry.unregister, Registry.find?_leave] at hv
      split at hv
      · cases hv
      · exact h.known k v hv
  | dispatch token event =>
      exact h.of_shards Registry.hash_dispatch Registry.shards_dispatch Registry.made_dispatch
  | deliver n event =>
      simp only [Bench.ask]
      split
      · exact h
      · exact h.of_shards (Registry.hash_record _) (Registry.shards_record _)
          (Registry.made_record _)
  | complete n =>
      simp only [Bench.ask]
      split
      · exact h
      · exact h.of_shards (Registry.hash_record _) (Registry.shards_record _)
          (Registry.made_record _)
  | state n =>
      simp only [Bench.ask]
      split <;> exact h
  | contains token => exact h
  | size => exact h

theorem Sound.run (h : b.Sound) (qs : List Request) : (b.run qs).Sound := by
  induction qs generalizing b with
  | nil => exact h
  | cons q qs ih => exact ih (h.ask q)

/-! ## What touches a waiter -/

/-- Waiters are completed by what settles for the waiter that is reached, and by nothing else. -/
theorem mem_completed_ask :
    n ∈ (b.ask q).2.registry.completed ↔
      n ∈ b.registry.completed ∨
        ∃ w t, b.addressee? q = some w ∧ q.touch? = some t ∧ t.settles w.tags = true ∧
          n = w.number := by
  cases q with
  | make token tags => simp [ask, addressee?, Registry.make]
  | register n =>
      simp only [ask]
      split
      · simp [addressee?]
      · split
        · rename_i w _ r hr
          obtain ⟨-, rfl⟩ := Registry.register_eq_ok_iff.mp hr
          simp [addressee?, Registry.onShard]
        · simp [addressee?]
  | unregister token => simp [ask, addressee?, Registry.unregister, Registry.onShard]
  | dispatch token event =>
      simp [ask, addressee?, Registry.mem_completed_dispatch, Request.touch?, Touch.settles]
  | deliver n event =>
      simp only [ask]
      split
      · rename_i hw
        simp [addressee?, hw]
      · rename_i w hw
        simp [addressee?, hw, Registry.mem_completed_deliver, Request.touch?, Touch.settles]
  | complete n =>
      simp only [ask]
      split
      · rename_i hw
        simp [addressee?, hw]
      · rename_i w hw
        simp [addressee?, hw, Registry.complete, Registry.mem_completed_record, Request.touch?,
          Touch.settles]
  | state n =>
      simp only [ask]
      split <;> simp [addressee?]
  | contains token => simp [ask, addressee?]
  | size => simp [ask, addressee?]

theorem reply_ask (hw : b.addressee? q = some w) (ht : q.touch? = some t) :
    (b.ask q).1 = t.reply w.tags (b.isDone w) := by
  cases q with
  | dispatch token event =>
      cases ht
      have hw : b.registry.find? token = some w := hw
      simp only [ask, Registry.dispatch, hw]
      exact Registry.deliver_fst ..
  | deliver n event =>
      cases ht
      have hw : b.waiters[n]? = some w := hw
      simp only [ask, hw]
      exact Registry.deliver_fst ..
  | complete n =>
      cases ht
      have hw : b.waiters[n]? = some w := hw
      simp only [ask, hw, Registry.complete, Touch.reply, isDone]
      cases b.registry.state w <;> rfl
  | _ => cases hw

theorem touch?_eq_some_iff :
    b.touch? w q = some t ↔ b.addressee? q = some w ∧ q.touch? = some t := by
  simp [touch?]

theorem Sound.addressee_mem (h : b.Sound) (hw : b.addressee? q = some w) : w ∈ b.waiters := by
  cases q with
  | dispatch token event => exact h.known token w hw
  | deliver n event => exact List.mem_of_getElem? hw
  | complete n => exact List.mem_of_getElem? hw
  | _ => cases hw

/-- A waiter is completed by what settles for it, if no other waiter bears its number. -/
theorem Sound.isDone_ask (h : b.Sound) (hw : ∀ v ∈ b.waiters, v.number = w.number → v = w) :
    (b.ask q).2.isDone w = (b.isDone w || (b.touch? w q).any (·.settles w.tags)) := by
  rw [Bool.eq_iff_iff, Bool.or_eq_true, isDone_iff, isDone_iff, mem_completed_ask,
    Option.any_eq_true]
  refine or_congr Iff.rfl ⟨?_, ?_⟩
  · rintro ⟨v, t, hv, ht, hs, hn⟩
    cases hw v (h.addressee_mem hv) hn.symm
    exact ⟨t, touch?_eq_some_iff.mpr ⟨hv, ht⟩, hs⟩
  · rintro ⟨t, ht, hs⟩
    obtain ⟨hv, ht⟩ := touch?_eq_some_iff.mp ht
    exact ⟨w, t, hv, ht, hs, rfl⟩

/-! ## One shot -/

theorem Sound.eq_of_run (h : b.Sound) {qs : List Request} (hw : w ∈ (b.run qs).waiters) :
    ∀ v ∈ b.waiters, v.number = w.number → v = w := fun _ hv =>
  (h.run qs).eq_of_number ((waiters_run qs).subset hv) hw

/-- A waiter has been completed once something that settles was brought to it. -/
theorem Sound.isDone_run (h : b.Sound) {qs : List Request} (hw : w ∈ (b.run qs).waiters) :
    (b.run qs).isDone w = (b.isDone w || (b.life w qs).any fun x => x.1.settles w.tags) := by
  induction qs generalizing b with
  | nil => exact (Bool.or_false _).symm
  | cons q qs ih =>
      have hq := h.isDone_ask (q := q) (h.eq_of_run hw)
      have hqs : (b.run (q :: qs)).isDone w = ((b.ask q).2.isDone w || _) := ih (h.ask q) hw
      rw [hqs, hq, life, List.any_append, Bool.or_assoc]
      cases b.touch? w q <;> simp

/-- Every reply of a waiter is determined by whether anything before it has settled. -/
theorem Sound.reply_life (h : b.Sound) {qs : List Request} (hw : w ∈ (b.run qs).waiters)
    {before after : List (Touch × Reply)} {a : Reply}
    (hl : b.life w qs = before ++ (t, a) :: after) :
    a = t.reply w.tags (b.isDone w || before.any fun x => x.1.settles w.tags) := by
  -- What a request brings moves from the life that is left to what `isDone` tells.
  induction qs generalizing b before with
  | nil => simp [life] at hl
  | cons q qs ih =>
      have hq := h.isDone_ask (q := q) (h.eq_of_run hw)
      rw [life] at hl
      cases ht : b.touch? w q with
      | none =>
          rw [ht] at hl hq
          simpa [hq] using ih (h.ask q) hw hl
      | some u =>
          rw [ht] at hl hq
          cases before with
          | nil =>
              obtain ⟨⟨rfl, rfl⟩, -⟩ : (u = t ∧ (b.ask q).1 = a) ∧ _ := by simpa using hl
              obtain ⟨hv, ht⟩ := touch?_eq_some_iff.mp ht
              simpa using reply_ask hv ht
          | cons x before =>
              obtain ⟨rfl, htail⟩ := List.cons_eq_cons.mp hl
              simpa [hq, Bool.or_assoc] using ih (h.ask q) hw htail

/-- At most one reply of a waiter that was armed tells that it has just been completed. -/
theorem Sound.length_firsts_life (h : b.Sound) {qs : List Request} (hw : w ∈ (b.run qs).waiters) :
    ((b.life w qs).filter (·.2.isFirst)).length ≤ 1 := by
  cases hf : (b.life w qs).filter (·.2.isFirst) with
  | nil => simp
  | cons x xs =>
      cases xs with
      | nil => simp
      | cons y ys =>
          -- The second of two such replies comes after something that has settled.
          obtain ⟨l₁, l₂, hl, -, hx, hl₂⟩ := List.filter_eq_cons_iff.mp hf
          obtain ⟨l₃, l₄, rfl, -, hy, -⟩ := List.filter_eq_cons_iff.mp hl₂
          obtain ⟨t, a⟩ := x
          obtain ⟨u, c⟩ := y
          have ha := h.reply_life hw hl
          have hc := h.reply_life hw (hl.trans (List.append_assoc l₁ ((t, a) :: l₃) _).symm)
          simp only [ha, Touch.isFirst_reply, Bool.and_eq_true] at hx
          simp only [hc, Touch.isFirst_reply] at hy
          simp [hx.1] at hy

end Bench

end Billing.Completion
