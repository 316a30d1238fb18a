import Mathlib.Data.Finmap
import Billing.Proofs.Completion.Bench

/-!
# A registry is one table of cells

Without hash and shards, a registry is a partial map from tokens to waiters beside a flag for each
waiter. Nobody who asks can tell the two apart.
-/

namespace Billing.Completion

open Registry (Request Reply Touch)

/-- The waiters made so far, those that are bound to their tokens, and a flag for each. -/
structure Cells where
  waiters : List Waiter
  bound : Finmap fun _ : CorrelationToken => Waiter
  /-- The flag of the waiter of a number. -/
  completed : Nat → Bool

namespace Cells

def empty : Cells := ⟨[], ∅, fun _ => false⟩

/-- Sets the flag of a waiter, if this settled. -/
def mark (c : Cells) (w : Waiter) (settled : Bool) : Cells :=
  { c with completed := fun n => c.completed n || (settled && n == w.number) }

/-- Brings to a waiter what can happen to it. -/
def touch (c : Cells) (w : Waiter) (t : Touch) : Reply × Cells :=
  (t.reply w.tags (c.completed w.number), c.mark w (t.settles w.tags))

def ask (c : Cells) : Request → Reply × Cells
  | .make token tags =>
    let w : Waiter := ⟨c.waiters.length, token, tags⟩
    (.made w, { c with waiters := c.waiters ++ [w] })
  | .register n =>
    match c.waiters[n]? with
    | none => (.unknown, c)
    | some w =>
      if w.token ∈ c.bound then (.refused ⟨w.token⟩, c)
      else (.registered, { c with bound := c.bound.insert w.token w })
  | .unregister token =>
    (.unregistered (c.bound.lookup token), { c with bound := c.bound.erase token })
  | .dispatch token event =>
    match c.bound.lookup token with
    | none => (.delivered .noWaiter, c)
    | some w => c.touch w (.event event)
  | .deliver n event =>
    match c.waiters[n]? with
    | none => (.unknown, c)
    | some w => c.touch w (.event event)
  | .complete n =>
    match c.waiters[n]? with
    | none => (.unknown, c)
    | some w => c.touch w .completion
  | .state n =>
    match c.waiters[n]? with
    | none => (.unknown, c)
    | some w => (.state (if c.completed w.number then .completed else .armed), c)
  | .contains token => (.contains (token ∈ c.bound), c)
  | .size => (.size c.bound.keys.card, c)

def replies : Cells → List Request → List Reply
  | _, [] => []
  | c, q :: qs => (c.ask q).1 :: replies (c.ask q).2 qs

end Cells

namespace Bench

variable {b : Bench} {c : Cells} {q : Request} {w : Waiter} {n : Nat} {k : CorrelationToken}

/-! ## Refinement -/

/-- A registry with its waiters stands for a table. -/
structure Refines (b : Bench) (c : Cells) : Prop where
  placed : b.registry.Placed
  made : b.registry.made = b.waiters.length
  waiters : b.waiters = c.waiters
  bound : ∀ k, b.registry.find? k = c.bound.lookup k
  completed : ∀ n, n ∈ b.registry.completed ↔ c.completed n = true

theorem refines_empty (hash : CorrelationToken → UInt64) : (empty hash).Refines .empty where
  placed := Registry.placed_empty hash
  made := rfl
  waiters := rfl
  bound := fun _ => Registry.find?_empty hash
  completed := fun n => by simp [empty, Registry.empty, Cells.empty]

theorem Refines.contains (h : b.Refines c) : b.registry.contains k = true ↔ k ∈ c.bound := by
  rw [Registry.contains, h.bound, Finmap.lookup_isSome]

theorem Refines.size (h : b.Refines c) : b.registry.size = c.bound.keys.card :=
  h.placed.size_eq_card fun _ => Finmap.mem_keys.trans h.contains.symm

theorem Refines.isDone (h : b.Refines c) : b.isDone w = c.completed w.number := by
  rw [Bool.eq_iff_iff, isDone_iff, h.completed]

/-- What leaves the shards alone and completes just what is marked. -/
theorem Refines.mark (h : b.Refines c) {r : Registry} {settled : Bool}
    (hh : r.hash = b.registry.hash) (hs : r.shards = b.registry.shards)
    (hm : r.made = b.registry.made)
    (hc : ∀ n, n ∈ r.completed ↔ n ∈ b.registry.completed ∨ settled = true ∧ n = w.number) :
    Refines { b with registry := r } (c.mark w settled) where
  placed := h.placed.of_shards hh hs
  made := hm.trans h.made
  waiters := h.waiters
  bound := fun k => (Registry.find?_of_shards hh hs).trans (h.bound k)
  completed := fun n => by simp [hc, h.completed, Cells.mark]

theorem Refines.deliver (h : b.Refines c) (w : Waiter) (e : DomainEvent) :
    Reply.delivered (b.registry.deliver w e).1 = (c.touch w (.event e)).1 ∧
      Refines { b with registry := (b.registry.deliver w e).2 } (c.touch w (.event e)).2 := by
  constructor
  · rw [Registry.deliver_fst, Cells.touch, ← h.isDone, Bench.isDone]
  · exact h.mark (Registry.hash_record _) (Registry.shards_record _) (Registry.made_record _)
      fun n => Registry.mem_completed_deliver

theorem Refines.complete (h : b.Refines c) (w : Waiter) :
    Reply.completed (b.registry.complete w).1 = (c.touch w .completion).1 ∧
      Refines { b with registry := (b.registry.complete w).2 } (c.touch w .completion).2 := by
  constructor
  · rw [Cells.touch, ← h.isDone, Bench.isDone, Registry.complete, Touch.reply]
    cases b.registry.state w <;> rfl
  · exact h.mark (Registry.hash_record _) (Registry.shards_record _) (Registry.made_record _)
      fun n => by simp [Registry.complete, Registry.mem_completed_record, Touch.settles]

theorem Refines.register (h : b.Refines c) (hn : b.waiters[n]? = some w) :
    (b.ask (.register n)).1 = (c.ask (.register n)).1 ∧
      (b.ask (.register n)).2.Refines (c.ask (.register n)).2 := by
  simp only [Bench.ask, Cells.ask, ← h.waiters, hn, Registry.register]
  by_cases hw : w.token ∈ c.bound
  · rw [if_pos (h.contains.mpr hw), if_pos hw]
    exact ⟨rfl, h⟩
  · -- The token is free on both sides, and then it stands for the waiter on both.
    have hfree : b.registry.find? w.token = none :=
      (h.bound _).trans (Finmap.lookup_eq_none.mpr hw)
    rw [if_neg (mt h.contains.mp hw), if_neg hw]
    refine ⟨rfl, { h with placed := h.placed.enter hfree, waiters := rfl, bound := fun k => ?_ }⟩
    rw [Registry.find?_enter]
    split
    · rename_i hk
      rw [← hk, Finmap.lookup_insert]
    · rename_i hk
      rw [Finmap.lookup_insert_of_ne _ (Ne.symm hk), h.bound]

theorem Refines.ask (h : b.Refines c) (q : Request) :
    (b.ask q).1 = (c.ask q).1 ∧ (b.ask q).2.Refines (c.ask q).2 := by
  cases q with
  | make token tags =>
      simp only [Bench.ask, Registry.make, Cells.ask, h.made, h.waiters, true_and]
      exact {
        placed := h.placed.of_shards rfl rfl
        made := by simp
        waiters := rfl
        bound := h.bound
        completed := h.completed }
  | register n =>
      cases hn : b.waiters[n]? with
      | none =>
          simp only [Bench.ask, Cells.ask, ← h.waiters, hn, true_and]
          exact h
      | some w => exact h.register hn
  | unregister token =>
      refine ⟨congrArg Reply.unregistered (h.bound token), { h with
        placed := h.placed.leave
        bound := fun k => ?_ }⟩
      simp only [Bench.ask, Registry.unregister, Cells.ask, Registry.find?_leave]
      split
      · rename_i hk
        rw [hk, Finmap.lookup_erase]
      · rename_i hk
        rw [Finmap.lookup_erase_ne (Ne.symm hk), h.bound]
  | dispatch token event =>
      simp only [Bench.ask, Registry.dispatch, Cells.ask, ← h.bound]
      cases b.registry.find? token with
      | none => exact ⟨rfl, h⟩
      | some w => exact h.deliver w event
  | deliver n event =>
      simp only [Bench.ask, Cells.ask, ← h.waiters]
      cases b.waiters[n]? with
      | none => exact ⟨rfl, h⟩
      | some w => exact h.deliver w event
  | complete n =>
      simp only [Bench.ask, Cells.ask, ← h.waiters]
      cases b.waiters[n]? with
      | none => exact ⟨rfl, h⟩
      | some w => exact h.complete w
  | state n =>
      simp only [Bench.ask, Cells.ask, ← h.waiters]
      cases b.waiters[n]? with
      | none => exact ⟨rfl, h⟩
      | some w =>
          refine ⟨?_, h⟩
          simp only [← h.isDone, Bench.isDone]
          cases b.registry.state w <;> rfl
  | contains token =>
      refine ⟨?_, h⟩
      simp [Bench.ask, Cells.ask, ← h.contains]
  | size => exact ⟨congrArg Reply.size h.size, h⟩

theorem Refines.replies (h : b.Refines c) (qs : List Request) : b.replies qs = c.replies qs := by
  induction qs generalizing b c with
  | nil => rfl
  | cons q qs ih =>
      obtain ⟨hq, h⟩ := h.ask q
      rw [Bench.replies, Cells.replies, hq, ih h]

theorem Refines.run (h : b.Refines c) (qs : List Request) : ∃ c, (b.run qs).Refines c := by
  induction qs generalizing b c with
  | nil => exact ⟨c, h⟩
  | cons q qs ih => exact ih (h.ask q).2

/-! ## What may be relied on -/

/-- A waiter that a request does not reach stays as it is. -/
theorem Sound.isDone_of_not_reached (h : b.Sound) (hw : w ∈ b.waiters)
    (hq : b.addressee? q ≠ some w) : (b.ask q).2.isDone w = b.isDone w := by
  rw [h.isDone_ask fun v hv hn => h.eq_of_number hv hw hn, touch?, if_neg hq]
  simp

/-- A waiter that has been completed stays so. -/
theorem isDone_run_of_isDone (hw : b.isDone w = true) (qs : List Request) :
    (b.run qs).isDone w = true := by
  induction qs generalizing b with
  | nil => exact hw
  | cons q qs ih => exact ih (isDone_iff.mpr (mem_completed_ask.mpr (.inl (isDone_iff.mp hw))))

/-- A registry of any hash, with the waiters made for it, after requests in order. -/
structure AsOneTable (hash : CorrelationToken → UInt64) (qs : List Request) (b : Bench) : Prop where
  /-- Every reply is that of one table without shards. -/
  replies : (empty hash).replies qs = Cells.empty.replies qs
  /-- As many waiters are registered as there are tokens with a waiter. -/
  size : ∀ ts : Finset CorrelationToken,
    (∀ k, k ∈ ts ↔ b.registry.contains k = true) → b.registry.size = ts.card
  /-- A waiter is refused if its token is taken, and then nothing changes. -/
  refused : ∀ n w, b.waiters[n]? = some w → b.registry.contains w.token = true →
    b.ask (.register n) = (.refused ⟨w.token⟩, b)
  /-- Otherwise it is found under its token, and all others as before. -/
  registered : ∀ n w, b.waiters[n]? = some w → b.registry.contains w.token = false →
    (b.ask (.register n)).1 = .registered ∧
      ∀ k, (b.ask (.register n)).2.registry.find? k =
        if w.token = k then some w else b.registry.find? k
  /-- An event leaves everybody registered who was, and nobody else. -/
  dispatched : ∀ t e k, (b.ask (.dispatch t e)).2.registry.find? k = b.registry.find? k
  /-- It touches no waiter but the one that is registered under its token. -/
  untouched : ∀ t e, ∀ w ∈ b.waiters, b.registry.find? t ≠ some w →
    (b.ask (.dispatch t e)).2.isDone w = b.isDone w
  /-- A waiter replies to what is brought to it by whether anything before has settled. -/
  law : ∀ w ∈ b.waiters, ∀ before t a after, (empty hash).life w qs = before ++ (t, a) :: after →
    a = t.reply w.tags (before.any fun x => x.1.settles w.tags)
  /-- It is completed at most once. -/
  once : ∀ w ∈ b.waiters, (((empty hash).life w qs).filter (·.2.isFirst)).length ≤ 1
  /-- It has been completed if anything has settled. -/
  done : ∀ w ∈ b.waiters, b.isDone w = ((empty hash).life w qs).any fun x => x.1.settles w.tags
  /-- It is never armed again. -/
  forever : ∀ w, b.isDone w = true → ∀ qs', (b.run qs').isDone w = true

/-- Whatever is asked of it, a registry is one table of cells. -/
theorem as_one_table (hash : CorrelationToken → UInt64) (qs : List Request) :
    AsOneTable hash qs ((empty hash).run qs) := by
  have hstart := sound_empty hash
  have h := hstart.run qs
  obtain ⟨_, hc⟩ := (refines_empty hash).run qs
  have hdone (w : Waiter) : (empty hash).isDone w = false := rfl
  exact {
    replies := (refines_empty hash).replies qs
    size := fun _ => hc.placed.size_eq_card
    refused := fun n w hn hw => by
      simp only [Bench.ask, hn, Registry.register, hw, if_true]
    registered := fun n w hn hw => by
      simp only [Bench.ask, hn, Registry.register, hw, Bool.false_eq_true, if_false, true_and]
      exact fun k => Registry.find?_enter
    dispatched := fun _ _ _ =>
      Registry.find?_of_shards Registry.hash_dispatch Registry.shards_dispatch
    untouched := fun _ _ _ hw hn => h.isDone_of_not_reached hw hn
    law := fun w hw before t a after hl => by
      rw [hstart.reply_life hw hl, hdone, Bool.false_or]
    once := fun _ => hstart.length_firsts_life
    done := fun w hw => by rw [hstart.isDone_run hw, hdone, Bool.false_or]
    forever := fun _ => isDone_run_of_isDone }

/-- A waiter that goes and comes back in a crowded shard is completed once. -/
example :
    ((empty fun _ => 0).replies [.make (.numbered 1) .empty, .make (.numbered 2) .empty,
      .register 0, .register 1, .size, .dispatch (.numbered 1) .emptyInvoice,
      .unregister (.numbered 1), .register 0, .dispatch (.numbered 1) .emptyInvoice]).drop 4 =
    [.size 2, .delivered .completed, .unregistered (some ⟨0, .numbered 1, .empty⟩), .registered,
      .delivered .alreadyCompleted] := by
  decide

end Bench

end Billing.Completion
