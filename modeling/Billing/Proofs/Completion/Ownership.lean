import Mathlib.Logic.ExistsUnique
import Billing.Completion.Desk
import Billing.Proofs.Completion.Turn
import Billing.Proofs.Numbering

/-!
# Who owns a registration

After any number of turns of any number of calls on one registry, the registered waiters are those
that were there before and those of the calls that are running or waiting, one for each of these. A
call that is rejected touches nobody's waiter, and once all calls have ended the registry holds what
it held before.
-/

namespace Billing.Completion

variable {α : Type}

/-! ## Runs of a desk -/

/-- What comes next at a desk. -/
inductive Move (α : Type) where
  | happening (h : Happening α)
  /-- Time passes to a moment. -/
  | pass (moment : Nat)

/-- The call that something happens to. -/
def Happening.call? : Happening α → Option Nat
  | .start i _ => some i
  | .enlist i => some i
  | .conclude i _ => some i
  | .poll i => some i
  | .interrupt i => some i
  | .drop i => some i
  | _ => none

/-- The time after a move. -/
def Move.timeFrom (now : Nat) : Move α → Nat
  | .happening _ => now
  | .pass moment => max now moment

/-- What a move makes of a desk. -/
def Desk.move (d : Desk α) : Move α → Desk α
  | .happening h => d.step h
  | .pass moment => d.advance moment

/-- What moves in order make of a desk. -/
def Desk.run (d : Desk α) (ms : List (Move α)) : Desk α := ms.foldl Desk.move d

/-! ## Holders -/

namespace Desk

/-- A call that has not ended holds the registration of a waiter of its own. -/
def Holds (d : Desk α) (i : Nat) (w : Waiter) : Prop :=
  ∃ c, d.calls[i]? = some c ∧ c.phase.waiter? = some w

theorem Holds.unique {d : Desk α} {i : Nat} {v w : Waiter} (hv : d.Holds i v) (hw : d.Holds i w) :
    v = w := by
  obtain ⟨c, hc, hv⟩ := hv
  obtain ⟨c', hc', hw⟩ := hw
  rw [hc] at hc'
  cases hc'
  exact Option.some.inj (hv.symm.trans hw)

/-- The registered waiters are those that were there before, and those of the calls that hold one;
each call has a token and a number of its own. -/
structure Owned (r₀ : Registry) (d : Desk α) : Prop where
  hash : d.registry.hash = r₀.hash
  shards : ∀ j : Fin 16, ∃ own, d.registry.shard j = own ++ r₀.shard j ∧
    ∀ w, w ∈ own ↔ r₀.shardOf w.token = j ∧ ∃ i, d.Holds i w
  token : ∀ {i : Nat} {c : Call α} {w : Waiter}, d.calls[i]? = some c →
    c.phase.waiter? = some w → w.token = c.context.token
  number : ∀ {i : Nat} {w : Waiter}, d.Holds i w → w.number < d.registry.made
  free : ∀ {i : Nat} {w : Waiter}, d.Holds i w → r₀.find? w.token = none
  apart : ∀ {i j : Nat} {v w : Waiter}, d.Holds i v → d.Holds j w →
    v.token = w.token ∨ v.number = w.number → i = j

namespace Owned

variable {r₀ : Registry} {d : Desk α} {i j : Nat} {v w : Waiter} {k : CorrelationToken}

theorem opened (maxWait : Nat) : Owned r₀ (Desk.opened r₀ maxWait : Desk α) where
  hash := rfl
  shards j := ⟨[], rfl, by simp [Desk.opened, Holds]⟩
  token h := by simp [Desk.opened] at h
  number h := by simp [Desk.opened, Holds] at h
  free h := by simp [Desk.opened, Holds] at h
  apart h := by simp [Desk.opened, Holds] at h

/-- What is found under a token: a waiter that was there before, or the one of its holder. -/
theorem find?_eq_some_iff (h : Owned r₀ d) :
    d.registry.find? k = some w ↔
      r₀.find? k = some w ∨ w.token = k ∧ ∃ i, d.Holds i w := by
  obtain ⟨own, ho, hm⟩ := h.shards (r₀.shardOf k)
  have hf : d.registry.find? k = (own.find? fun w => w.token = k).or (r₀.find? k) := by
    rw [Registry.find?_eq_find?_shard, Registry.shardOf_of_hash h.hash, ho, List.find?_append]
    rfl
  have hown : ∀ v, (own.find? fun w => w.token = k) = some v → v.token = k ∧ ∃ i, d.Holds i v := by
    intro v hv
    have ht : v.token = k := by simpa using List.find?_some hv
    exact ⟨ht, ((hm v).mp (List.mem_of_find?_eq_some hv)).2⟩
  rw [hf]
  cases hv : own.find? fun w => w.token = k with
  | none =>
      rw [Option.none_or]
      constructor
      · exact Or.inl
      · rintro (hw | ⟨hk, hi⟩)
        · exact hw
        · have hw : w ∈ own := (hm w).mpr ⟨by rw [hk], hi⟩
          exact absurd hk (by simpa using List.find?_eq_none.mp hv w hw)
  | some v =>
      obtain ⟨ht, i, hi⟩ := hown v hv
      rw [Option.some_or, Option.some.injEq]
      constructor
      · rintro rfl
        exact Or.inr ⟨ht, i, hi⟩
      · rintro (hw | ⟨hk, j, hj⟩)
        · have hn := h.free hi
          rw [ht, hw] at hn
          cases hn
        · cases h.apart hi hj (Or.inl (ht.trans hk.symm))
          exact hi.unique hj

theorem find?_of_holds (h : Owned r₀ d) (hi : d.Holds i w) : d.registry.find? w.token = some w :=
  h.find?_eq_some_iff.mpr (Or.inr ⟨rfl, i, hi⟩)

/-! ### Turns -/

section Turns

variable {d' : Desk α} {c c' : Call α}

theorem holds_set (hc : d.calls[i]? = some c) (hs : d'.calls = d.calls.set i c') :
    d'.Holds j w ↔ j = i ∧ c'.phase.waiter? = some w ∨ j ≠ i ∧ d.Holds j w := by
  unfold Holds
  simp only [hs, getElem?_set_eq_some_iff hc]
  by_cases hj : j = i <;> simp [hj]

theorem token_set (h : Owned r₀ d) (hc : d.calls[i]? = some c) (hs : d'.calls = d.calls.set i c')
    (hw' : ∀ w, c'.phase.waiter? = some w → w.token = c'.context.token) {b : Call α}
    (hb : d'.calls[j]? = some b) (hw : b.phase.waiter? = some w) : w.token = b.context.token := by
  rw [hs, getElem?_set_eq_some_iff hc] at hb
  rcases hb with ⟨_, rfl⟩ | ⟨_, hb⟩
  · exact hw' w hw
  · exact h.token hb hw

theorem turn_keep {made : Nat} (h : Owned r₀ d) (hc : d.calls[i]? = some c)
    (hs : d'.calls = d.calls.set i c') (hr : d'.registry = { d.registry with made })
    (hx : c'.context = c.context) (hw : c'.phase.waiter? = c.phase.waiter?)
    (hm : d.registry.made ≤ made) : Owned r₀ d' := by
  have hh : ∀ j v, d'.Holds j v ↔ d.Holds j v := by
    intro j v
    rw [holds_set hc hs, hw]
    by_cases hj : j = i
    · subst hj
      simp [Holds, hc]
    · simp [hj]
  exact {
    hash := by rw [hr]; exact h.hash
    shards := fun s => by
      have hd : d'.registry.shard s = d.registry.shard s :=
        Registry.shards_eq_iff.mp (by rw [hr]) s
      simpa only [hh, hd] using h.shards s
    token := h.token_set hc hs fun w hw' => by rw [hx]; exact h.token hc (hw ▸ hw')
    number := fun hv => by rw [hr]; exact Nat.lt_of_lt_of_le (h.number ((hh _ _).mp hv)) hm
    free := fun hv => h.free ((hh _ _).mp hv)
    apart := fun hv hw => h.apart ((hh _ _).mp hv) ((hh _ _).mp hw) }

theorem holds_enter (hc : d.calls[i]? = some c) (hs : d'.calls = d.calls.set i c')
    (hb : c.phase.waiter? = none) (ha : c'.phase.waiter? = some w) :
    d'.Holds j v ↔ j = i ∧ v = w ∨ d.Holds j v := by
  have hi : ¬ d.Holds i v := by
    rintro ⟨b, hb', hv⟩
    rw [hc] at hb'
    cases hb'
    rw [hb] at hv
    cases hv
  rw [holds_set hc hs, ha, Option.some.injEq, eq_comm (a := w)]
  by_cases hj : j = i
  · subst hj
    simp [hi]
  · simp [hj]

theorem holds_leave (hc : d.calls[i]? = some c) (hs : d'.calls = d.calls.set i c')
    (ha : c'.phase.waiter? = none) : d'.Holds j v ↔ j ≠ i ∧ d.Holds j v := by
  rw [holds_set hc hs, ha]
  simp

theorem find?_before (h : Owned r₀ d) (hk : d.registry.find? k = none) : r₀.find? k = none := by
  cases hr : r₀.find? k with
  | none => rfl
  | some u =>
      have := h.find?_eq_some_iff.mpr (Or.inl hr)
      rw [hk] at this
      cases this

/-- Whoever registers stands before all others in the shard of its token. -/
theorem shards_enter {made : Nat} (h : Owned r₀ d)
    (hr : d'.registry = { d.registry with made }.onShard w.token (w :: ·))
    (hh : ∀ {j v}, d'.Holds j v ↔ j = i ∧ v = w ∨ d.Holds j v) (s : Fin 16) :
    ∃ own, d'.registry.shard s = own ++ r₀.shard s ∧
      ∀ v, v ∈ own ↔ r₀.shardOf v.token = s ∧ ∃ j, d'.Holds j v := by
  obtain ⟨own, ho, hm⟩ := h.shards s
  have hd : d'.registry.shard s =
      if r₀.shardOf w.token = s then w :: d.registry.shard s else d.registry.shard s := by
    rw [hr, Registry.shard_onShard]
    show (if d.registry.shardOf w.token = s then _ else _) = _
    rw [Registry.shardOf_of_hash h.hash]
    rfl
  by_cases hw : r₀.shardOf w.token = s
  · refine ⟨w :: own, by rw [hd, if_pos hw, ho, List.cons_append], fun v => ?_⟩
    rw [List.mem_cons, hm]
    constructor
    · rintro (rfl | ⟨hv, j, hj⟩)
      · exact ⟨hw, i, hh.mpr (Or.inl ⟨rfl, rfl⟩)⟩
      · exact ⟨hv, j, hh.mpr (Or.inr hj)⟩
    · rintro ⟨hv, j, hj⟩
      rcases hh.mp hj with ⟨rfl, rfl⟩ | hj
      · exact Or.inl rfl
      · exact Or.inr ⟨hv, j, hj⟩
  · refine ⟨own, by rw [hd, if_neg hw, ho], fun v => ?_⟩
    rw [hm]
    constructor
    · rintro ⟨hv, j, hj⟩
      exact ⟨hv, j, hh.mpr (Or.inr hj)⟩
    · rintro ⟨hv, j, hj⟩
      rcases hh.mp hj with ⟨rfl, rfl⟩ | hj
      · exact absurd hv hw
      · exact ⟨hv, j, hj⟩

/-- Nobody but the waiter of the call leaves the shard of its token. -/
theorem shards_leave (h : Owned r₀ d) (hr : d'.registry = (d.registry.unregister w.token).2)
    (hi : d.Holds i w) (hh : ∀ {j v}, d'.Holds j v ↔ j ≠ i ∧ d.Holds j v) (s : Fin 16) :
    ∃ own, d'.registry.shard s = own ++ r₀.shard s ∧
      ∀ v, v ∈ own ↔ r₀.shardOf v.token = s ∧ ∃ j, d'.Holds j v := by
  have htoken : ∀ {j v}, d.Holds j v → (v.token ≠ w.token ↔ j ≠ i) := by
    intro j v hv
    constructor
    · rintro hne rfl
      exact hne (by rw [hv.unique hi])
    · intro hne he
      exact hne (h.apart hv hi (Or.inl he))
  obtain ⟨own, ho, hm⟩ := h.shards s
  have hd : d'.registry.shard s =
      if r₀.shardOf w.token = s then (d.registry.shard s).filter fun v => v.token ≠ w.token
      else d.registry.shard s := by
    rw [hr, Registry.unregister, Registry.shard_onShard, Registry.shardOf_of_hash h.hash]
  by_cases hw : r₀.shardOf w.token = s
  · -- None of the waiters that were there before goes with the one of the call.
    have hkept : (r₀.shard s).filter (fun v => v.token ≠ w.token) = r₀.shard s := by
      rw [List.filter_eq_self]
      intro v hv
      have hf : r₀.find? w.token = none := h.free hi
      rw [Registry.find?_eq_find?_shard, hw, List.find?_eq_none] at hf
      simpa using hf v hv
    refine ⟨own.filter fun v => v.token ≠ w.token, ?_, fun v => ?_⟩
    · rw [hd, if_pos hw, ho, List.filter_append, hkept]
    · rw [List.mem_filter, hm]
      constructor
      · rintro ⟨⟨hv, j, hj⟩, hne⟩
        exact ⟨hv, j, hh.mpr ⟨(htoken hj).mp (by simpa using hne), hj⟩⟩
      · rintro ⟨hv, j, hj⟩
        obtain ⟨hne, hj⟩ := hh.mp hj
        exact ⟨⟨hv, j, hj⟩, by simpa using (htoken hj).mpr hne⟩
  · refine ⟨own, by rw [hd, if_neg hw, ho], fun v => ?_⟩
    rw [hm]
    constructor
    · rintro ⟨hv, j, hj⟩
      have hne : v.token ≠ w.token := fun he => hw (by rw [← he]; exact hv)
      exact ⟨hv, j, hh.mpr ⟨(htoken hj).mp hne, hj⟩⟩
    · rintro ⟨hv, j, hj⟩
      exact ⟨hv, j, (hh.mp hj).2⟩

theorem turn_enter (h : Owned r₀ d) (hc : d.calls[i]? = some c) (hs : d'.calls = d.calls.set i c')
    (hr : d'.registry =
      { d.registry with made := d.registry.made + 1 }.onShard w.token (w :: ·))
    (hx : c'.context = c.context) (hb : c.phase.waiter? = none) (ha : c'.phase.waiter? = some w)
    (ht : w.token = c.context.token) (hn : w.number = d.registry.made)
    (hf : d.registry.find? w.token = none) : Owned r₀ d' := by
  have hh : ∀ {j v}, d'.Holds j v ↔ j = i ∧ v = w ∨ d.Holds j v := holds_enter hc hs hb ha
  -- Nobody holds the token of the new waiter, for it would be found.
  have htoken : ∀ {j v}, d.Holds j v → v.token ≠ w.token := by
    intro j v hv he
    have := h.find?_of_holds hv
    rw [he, hf] at this
    cases this
  have hnumber : ∀ {j v}, d.Holds j v → v.number ≠ w.number := by
    intro j v hv he
    have := h.number hv
    omega
  refine {
    hash := by rw [hr]; exact h.hash
    shards := h.shards_enter hr hh
    token := h.token_set hc hs fun v hv => by rw [ha] at hv; cases hv; rw [hx]; exact ht
    number := fun {j v} hv => ?_
    free := fun {j v} hv => ?_
    apart := fun {j l v u} hv hu he => ?_ }
  · rw [hr]
    rcases hh.mp hv with ⟨_, rfl⟩ | hv
    · simp [hn]
    · exact Nat.lt_succ_of_lt (h.number hv)
  · rcases hh.mp hv with ⟨_, rfl⟩ | hv
    · exact h.find?_before hf
    · exact h.free hv
  · rcases hh.mp hv with ⟨rfl, rfl⟩ | hv' <;> rcases hh.mp hu with ⟨rfl, rfl⟩ | hu'
    · rfl
    · exact (he.elim (fun e => htoken hu' e.symm) fun e => hnumber hu' e.symm).elim
    · exact (he.elim (htoken hv') (hnumber hv')).elim
    · exact h.apart hv' hu' he

theorem turn_leave (h : Owned r₀ d) (hc : d.calls[i]? = some c) (hs : d'.calls = d.calls.set i c')
    (hr : d'.registry = (d.registry.unregister w.token).2) (hb : c.phase.waiter? = some w)
    (ha : c'.phase.waiter? = none) : Owned r₀ d' := by
  have hh : ∀ {j v}, d'.Holds j v ↔ j ≠ i ∧ d.Holds j v := holds_leave hc hs ha
  exact {
    hash := by rw [hr]; exact h.hash
    shards := h.shards_leave hr ⟨c, hc, hb⟩ hh
    token := h.token_set hc hs fun v hv => by rw [ha] at hv; cases hv
    number := fun hv => by rw [hr]; exact h.number (hh.mp hv).2
    free := fun hv => h.free (hh.mp hv).2
    apart := fun hv hu => h.apart (hh.mp hv).2 (hh.mp hu).2 }

theorem turn {r : Registry} (h : Owned r₀ d) (hc : d.calls[i]? = some c)
    (ht : c.Turn d.registry c' r) :
    Owned r₀ { d with calls := d.calls.set i c', registry := r } := by
  cases ht with
  | keep hx hw hm => exact h.turn_keep hc rfl rfl hx hw hm
  | enter hx hb ha ht hn hf => exact h.turn_enter hc rfl rfl hx hb ha ht hn hf
  | leave hx hb ha => exact h.turn_leave hc rfl rfl hb ha

end Turns

theorem onCall {f : Call α → Registry → Call α × Registry} (h : Owned r₀ d)
    (hf : ∀ (c : Call α) r, c.Turn r (f c r).1 (f c r).2) (i : Nat) : Owned r₀ (d.onCall i f) := by
  unfold Desk.onCall
  split
  · exact h
  · rename_i c hc
    exact h.turn hc (hf c d.registry)

theorem onAllCalls {f : Call α → Registry → Call α × Registry} (h : Owned r₀ d)
    (hf : ∀ (c : Call α) r, c.Turn r (f c r).1 (f c r).2) : Owned r₀ (d.onAllCalls f) := by
  unfold Desk.onAllCalls
  generalize List.range d.calls.length = is
  induction is generalizing d with
  | nil => exact h
  | cons i is ih => exact ih (h.onCall hf i)

/-! ### Whatever happens -/

theorem arrive {b : Call α} (h : Owned r₀ d) (hb : b.phase.waiter? = none) :
    Owned r₀ { d with calls := d.calls ++ [b] } := by
  have hh : ∀ j v, Holds { d with calls := d.calls ++ [b] } j v ↔ d.Holds j v := by
    intro j v
    simp only [Holds, getElem?_concat_eq_some_iff]
    constructor
    · rintro ⟨c, hc | ⟨_, rfl⟩, hw⟩
      · exact ⟨c, hc, hw⟩
      · rw [hb] at hw
        cases hw
    · rintro ⟨c, hc, hw⟩
      exact ⟨c, Or.inl hc, hw⟩
  exact {
    hash := h.hash
    shards := fun s => by simpa only [hh] using h.shards s
    token := fun {i c w} hc hw => by
      rcases getElem?_concat_eq_some_iff.mp hc with hc | ⟨_, rfl⟩
      · exact h.token hc hw
      · rw [hb] at hw
        cases hw
    number := fun hv => h.number ((hh _ _).mp hv)
    free := fun hv => h.free ((hh _ _).mp hv)
    apart := fun hv hw => h.apart ((hh _ _).mp hv) ((hh _ _).mp hw) }

theorem dispatch (h : Owned r₀ d) (e : DomainEvent) : Owned r₀ (d.dispatch k e).2 where
  hash := Registry.hash_dispatch.trans h.hash
  shards s := by
    obtain ⟨own, ho, hm⟩ := h.shards s
    refine ⟨own, ?_, hm⟩
    rw [← ho]
    exact Registry.shards_eq_iff.mp Registry.shards_dispatch s
  token := h.token
  number hv := by
    show _ < (d.registry.dispatch k e).2.made
    rw [Registry.made_dispatch]
    exact h.number hv
  free := h.free
  apart := h.apart

theorem step (h : Owned r₀ d) (x : Happening α) : Owned r₀ (d.step x) := by
  cases x with
  | arrive context completing timeout => exact h.arrive rfl
  | start i tags => exact h.onCall (fun _ _ => Call.start_turn tags) i
  | enlist i => exact h.onCall (fun _ _ => Call.enlist_turn) i
  | conclude i result => exact h.onCall (fun _ _ => Call.conclude_turn _ result) i
  | poll i => exact h.onCall (fun _ _ => Call.poll_turn) i
  | interrupt i =>
      exact h.onCall (f := fun c r => ({ c with interrupted := true }, r))
        (fun _ _ => .same rfl rfl) i
  | drop i => exact h.onCall (fun _ _ => Call.drop_turn) i
  | event token e => exact h.dispatch e

theorem advance (h : Owned r₀ d) (moment : Nat) : Owned r₀ (d.advance moment) := by
  unfold Desk.advance
  split
  · have hp : Owned r₀ d.pollAll := h.onAllCalls fun _ _ => Call.poll_turn
    have he := hp.onAllCalls (f := fun c r => c.expire r moment) fun _ _ => Call.expire_turn moment
    exact ⟨he.hash, he.shards, he.token, he.number, he.free, he.apart⟩
  · exact h

theorem shards_of_ended (h : Owned r₀ d) (he : ∀ c ∈ d.calls, c.phase.isEnded = true) :
    d.registry.shards = r₀.shards := by
  have hn : ∀ i w, ¬ d.Holds i w := by
    rintro i w ⟨c, hc, hw⟩
    have := he c (List.mem_of_getElem? hc)
    cases hp : c.phase <;> simp_all [Phase.isEnded, Phase.waiter?]
  rw [Registry.shards_eq_iff]
  intro j
  obtain ⟨own, ho, hm⟩ := h.shards j
  have hown : own = [] := by
    rw [List.eq_nil_iff_forall_not_mem]
    intro w hw
    obtain ⟨_, i, hi⟩ := (hm w).mp hw
    exact hn i w hi
  rw [ho, hown, List.nil_append]

end Owned

/-! ## Rejected calls -/

/-- A call has ended because somebody was registered under its token. -/
def Rejected (d : Desk α) (i : Nat) (k : CorrelationToken) : Prop :=
  ∃ c, d.calls[i]? = some c ∧ c.context.token = k ∧ c.phase.rejection? = some ⟨k⟩

variable {d : Desk α} {i : Nat} {k : CorrelationToken}

theorem rejected_onCall {f : Call α → Registry → Call α × Registry}
    (ht : ∀ (c : Call α) r, c.Turn r (f c r).1 (f c r).2)
    (hf : ∀ (c : Call α) r e, (f c r).1.phase.rejection? = some e → c.phase.rejection? = some e ∨
      c.phase.waiter? = none ∧ e.token = c.context.token ∧ r.contains c.context.token = true)
    (h : (d.onCall i f).Rejected i k) :
    (d.onCall i f).registry.shards = d.registry.shards ∧
      (d.Rejected i k ∨ d.registry.contains k = true) := by
  unfold Desk.onCall at h ⊢
  split at h
  · exact ⟨rfl, Or.inl h⟩
  · rename_i c hc
    obtain ⟨c', hc', hk, hr⟩ := h
    rcases (getElem?_set_eq_some_iff hc).mp hc' with ⟨_, rfl⟩ | ⟨hne, _⟩
    · have ht := ht c d.registry
      have hx := ht.context_eq
      have ha := Phase.waiter?_of_rejection? hr
      rcases hf c d.registry ⟨k⟩ hr with hr | ⟨hb, hk', hr⟩
      · exact ⟨ht.shards_eq (Phase.waiter?_of_rejection? hr) ha,
          Or.inl ⟨c, hc, hx ▸ hk, hr⟩⟩
      · have hk' : k = c.context.token := hk'
        exact ⟨ht.shards_eq hb ha, Or.inr (hk' ▸ hr)⟩
    · exact absurd rfl hne

/-- A turn after which a call is rejected has registered and taken out nothing; either the call had
been rejected before, or somebody was found under its token. -/
theorem rejected_step {x : Happening α} (hx : x.call? = some i)
    (hr : (d.step x).Rejected i k) :
    (d.step x).registry.shards = d.registry.shards ∧
      (d.Rejected i k ∨ d.registry.contains k = true) := by
  cases x with
  | arrive => cases hx
  | start j tags =>
      cases hx
      exact rejected_onCall (fun _ _ => Call.start_turn tags)
        (fun _ _ _ h => Or.inl (Call.rejection?_start tags ▸ h)) hr
  | enlist j =>
      cases hx
      exact rejected_onCall (fun _ _ => Call.enlist_turn)
        (fun _ _ _ h => Call.rejection?_enlist h) hr
  | conclude j result =>
      cases hx
      exact rejected_onCall (fun _ _ => Call.conclude_turn _ result)
        (fun _ _ _ h => Or.inl (Call.rejection?_conclude _ result ▸ h)) hr
  | poll j =>
      cases hx
      exact rejected_onCall (fun _ _ => Call.poll_turn)
        (fun _ _ _ h => Or.inl (Call.rejection?_poll ▸ h)) hr
  | interrupt j =>
      cases hx
      exact rejected_onCall (f := fun c r => ({ c with interrupted := true }, r))
        (fun _ _ => .same rfl rfl) (fun _ _ _ h => Or.inl h) hr
  | drop j =>
      cases hx
      exact rejected_onCall (fun _ _ => Call.drop_turn)
        (fun _ _ _ h => Or.inl (Call.rejection?_drop ▸ h)) hr
  | event => cases hx

/-! ## The registry of many calls -/

theorem Owned.run {r₀ : Registry} (h : Owned r₀ d) (ms : List (Move α)) : Owned r₀ (d.run ms) := by
  induction ms generalizing d with
  | nil => exact h
  | cons m ms ih =>
      cases m with
      | happening x => exact ih (h.step x)
      | pass moment => exact ih (h.advance moment)

/-- What holds of a registry `r₀` that calls have shared for some time. -/
structure Orderly (r₀ : Registry) (d : Desk α) : Prop where
  /-- A token is registered by the calls exactly if one of them, and only one, holds it. -/
  registered_iff : ∀ k, (∃ w, d.registry.find? k = some w ∧ r₀.find? k = none) ↔
    ∃! i, ∃ w, d.Holds i w ∧ w.token = k
  /-- It is registered for the waiter of that call, which bears the token of the call and a number
  that no other waiter of a call has. -/
  own : ∀ i c w, d.calls[i]? = some c → c.phase.waiter? = some w →
    w.token = c.context.token ∧ d.registry.find? w.token = some w ∧
      ∀ j v, d.Holds j v → v.number = w.number → j = i
  /-- Who was registered before stays registered. -/
  kept : ∀ k w, r₀.find? k = some w → d.registry.find? k = some w
  /-- A call that is rejected after something has happened to it has neither taken out nor replaced
  anybody, and at its rejection somebody else was registered under its token. -/
  rejected : ∀ x i k, Happening.call? x = some i → (d.step x).Rejected i k →
    (d.step x).registry.shards = d.registry.shards ∧
      (d.Rejected i k ∨ d.registry.contains k = true)
  /-- Once all calls have ended, exactly what was registered before is registered. -/
  restored : (∀ c ∈ d.calls, c.phase.isEnded = true) → d.registry.shards = r₀.shards

/-- However many calls share a registry, and in whatever order their turns, events, interruptions,
drops and the passing of time come, every registration has one owner, who takes it along. -/
theorem run_orderly (r₀ : Registry) (maxWait : Nat) (ms : List (Move α)) :
    Orderly r₀ ((Desk.opened r₀ maxWait).run ms) := by
  have h : Owned r₀ ((Desk.opened r₀ maxWait : Desk α).run ms) := (Owned.opened maxWait).run ms
  refine {
    registered_iff := fun k => ⟨?_, ?_⟩
    own := fun i c w hc hw => ⟨h.token hc hw, h.find?_of_holds ⟨c, hc, hw⟩, fun j v hv hn =>
      h.apart hv ⟨c, hc, hw⟩ (Or.inr hn)⟩
    kept := fun k w hw => h.find?_eq_some_iff.mpr (Or.inl hw)
    rejected := fun x i k hx hr => rejected_step hx hr
    restored := h.shards_of_ended }
  · rintro ⟨w, hw, hn⟩
    rcases h.find?_eq_some_iff.mp hw with hr | ⟨hk, i, hi⟩
    · rw [hn] at hr
      cases hr
    · refine ⟨i, ⟨w, hi, hk⟩, ?_⟩
      rintro j ⟨v, hv, hvk⟩
      exact h.apart hv hi (Or.inl (hvk.trans hk.symm))
  · rintro ⟨i, ⟨w, hi, rfl⟩, _⟩
    exact ⟨w, h.find?_of_holds hi, h.free hi⟩

end Desk

end Billing.Completion
