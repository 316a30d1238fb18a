import Billing.Completion.Registry

/-!
# What the registry finds

Whoever registers or goes touches the shard of a token. An event touches no shard; it completes the
waiter that is found under its token, if it settles for it.
-/

namespace Billing.Completion.Registry

variable {r s : Registry} {w v : Waiter} {t k : CorrelationToken} {e : DomainEvent} {n : Nat}

/-! ## Shards -/

@[simp] theorem hash_onShard (f : List Waiter → List Waiter) : (r.onShard t f).hash = r.hash := rfl

@[simp] theorem made_onShard (f : List Waiter → List Waiter) : (r.onShard t f).made = r.made := rfl

theorem shardOf_of_hash (h : s.hash = r.hash) : s.shardOf t = r.shardOf t := by
  simp only [shardOf, h]

/-- The waiters of one shard. -/
def shard (r : Registry) (i : Fin 16) : List Waiter := r.shards[i]

theorem shards_eq_iff : s.shards = r.shards ↔ ∀ i, s.shard i = r.shard i := by
  constructor
  · intro h i
    rw [shard, shard, h]
  · intro h
    exact Vector.ext fun i hi => h ⟨i, hi⟩

theorem find?_eq_find?_shard :
    r.find? k = (r.shard (r.shardOf k)).find? fun w => w.token = k := rfl

theorem shard_onShard (f : List Waiter → List Waiter) (i : Fin 16) :
    (r.onShard t f).shard i = if r.shardOf t = i then f (r.shard i) else r.shard i := by
  simp only [shard, onShard, Fin.getElem_fin, Vector.getElem_set, Fin.ext_iff]
  split
  · rename_i h
    simp only [h]
  · rfl

/-! ## Waiters by token -/

@[simp] theorem find?_empty (hash : CorrelationToken → UInt64) :
    (Registry.empty hash).find? k = none := by
  simp [find?, empty]

theorem contains_eq_false_iff : r.contains k = false ↔ r.find? k = none := by
  simp [contains]

theorem register_eq_ok_iff :
    r.register w = .ok s ↔ r.find? w.token = none ∧ s = r.onShard w.token (w :: ·) := by
  unfold register
  cases h : r.contains w.token with
  | true =>
      simp only [contains] at h
      simp [Option.isSome_iff_ne_none.mp h]
  | false => simp [contains_eq_false_iff.mp h, eq_comm]

theorem register_eq_error_iff {x : AlreadyRegistered} :
    r.register w = .error x ↔ r.contains w.token = true ∧ x = ⟨w.token⟩ := by
  unfold register
  cases h : r.contains w.token <;> simp [eq_comm]

/-! ## Events -/

theorem shards_record (x : WaiterState) : (r.record w x).shards = r.shards := by
  cases x with
  | armed => rfl
  | completed =>
      simp only [record]
      split <;> rfl

theorem hash_record (x : WaiterState) : (r.record w x).hash = r.hash := by
  cases x with
  | armed => rfl
  | completed =>
      simp only [record]
      split <;> rfl

theorem made_record (x : WaiterState) : (r.record w x).made = r.made := by
  cases x with
  | armed => rfl
  | completed =>
      simp only [record]
      split <;> rfl

theorem mem_completed_record {x : WaiterState} :
    n ∈ (r.record w x).completed ↔ n ∈ r.completed ∨ x = .completed ∧ n = w.number := by
  cases x with
  | armed => simp [record]
  | completed =>
      simp only [record]
      split
      · simp only [true_and, iff_self_or]
        rintro rfl
        assumption
      · simp [or_comm]

theorem state_eq_completed_iff : r.state w = .completed ↔ w.number ∈ r.completed := by
  unfold state
  split <;> simp_all

theorem mem_completed_deliver :
    n ∈ (r.deliver w e).2.completed ↔
      n ∈ r.completed ∨ settles w.tags e = true ∧ n = w.number := by
  simp only [deliver, mem_completed_record, Waiter.deliver]
  by_cases hs : settles w.tags e = true
  · rw [Decision.of_eq_complete_iff.mpr hs]
    cases r.state w <;> simp [hs]
  · have hd : Decision.of w.tags e = .keepWaiting := by
      simp [Decision.of, hs]
    rw [hd]
    cases hw : r.state w with
    | armed => simp [hs]
    | completed =>
        have hn := state_eq_completed_iff.mp hw
        simp only [hs, true_and, Bool.false_eq_true, false_and, or_false, or_iff_left_iff_imp]
        rintro rfl
        exact hn

theorem shards_dispatch : (r.dispatch t e).2.shards = r.shards := by
  unfold dispatch
  split
  · exact shards_record _
  · rfl

theorem hash_dispatch : (r.dispatch t e).2.hash = r.hash := by
  unfold dispatch
  split
  · exact hash_record _
  · rfl

theorem made_dispatch : (r.dispatch t e).2.made = r.made := by
  unfold dispatch
  split
  · exact made_record _
  · rfl

/-- An event completes the waiter registered under its token if it settles for that waiter, and no
other waiter. -/
theorem mem_completed_dispatch :
    n ∈ (r.dispatch t e).2.completed ↔
      n ∈ r.completed ∨ ∃ w, r.find? t = some w ∧ settles w.tags e = true ∧ n = w.number := by
  unfold dispatch
  split
  · rename_i w hw
    simp [mem_completed_deliver, hw]
  · rename_i hw
    simp [hw]

end Billing.Completion.Registry
