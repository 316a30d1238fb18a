import Mathlib.Data.Finset.Card
import Mathlib.Data.List.Nodup
import Billing.Proofs.Completion.Registry

/-!
# Waiters in their shards

Every waiter is in the shard of its token, and no two waiters have the same token. So the shards
together hold one waiter for each token under which somebody is found.
-/

namespace Billing.Completion.Registry

variable {r s : Registry} {w : Waiter} {t k : CorrelationToken}

/-! ## Coming and going -/

theorem find?_enter :
    (r.onShard w.token (w :: ·)).find? k = if w.token = k then some w else r.find? k := by
  rw [find?_eq_find?_shard, find?_eq_find?_shard, shard_onShard, shardOf_of_hash (hash_onShard _)]
  by_cases hk : w.token = k
  · simp [hk]
  · rw [if_neg hk]
    split
    · exact List.find?_cons_of_neg (by simp [hk])
    · rfl

theorem find?_leave :
    (r.onShard t (·.filter fun w => w.token ≠ t)).find? k = if t = k then none else r.find? k := by
  rw [find?_eq_find?_shard, find?_eq_find?_shard, shard_onShard, shardOf_of_hash (hash_onShard _)]
  by_cases hk : t = k
  · simp [hk]
  · rw [if_neg hk]
    split
    · rw [List.find?_filter]
      congr 1
      funext v
      by_cases hv : v.token = k <;> simp [hv, Ne.symm hk]
    · rfl

theorem find?_of_shards (hh : s.hash = r.hash) (hs : s.shards = r.shards) :
    s.find? k = r.find? k := by
  rw [find?_eq_find?_shard, find?_eq_find?_shard, shardOf_of_hash hh, shards_eq_iff.mp hs]

theorem token_of_find? (h : r.find? k = some w) : w.token = k := by
  simpa using List.find?_some h

theorem mem_shard_of_find? (h : r.find? k = some w) : w ∈ r.shard (r.shardOf k) :=
  List.mem_of_find?_eq_some h

/-! ## The right shard -/

/-- Every waiter is where it is looked for, and no two of a shard have the same token. -/
structure Placed (r : Registry) : Prop where
  home : ∀ i, ∀ w ∈ r.shard i, r.shardOf w.token = i
  apart : ∀ i, ((r.shard i).map Waiter.token).Nodup

theorem placed_empty (hash : CorrelationToken → UInt64) : (empty hash).Placed where
  home := fun i w hw => by simp [shard, empty] at hw
  apart := fun i => by simp [shard, empty]

theorem Placed.of_shards (h : r.Placed) (hh : s.hash = r.hash) (hs : s.shards = r.shards) :
    s.Placed where
  home := fun i w hw => by
    rw [shardOf_of_hash hh]
    exact h.home i w (shards_eq_iff.mp hs i ▸ hw)
  apart := fun i => shards_eq_iff.mp hs i ▸ h.apart i

theorem Placed.enter (h : r.Placed) (hw : r.find? w.token = none) :
    (r.onShard w.token (w :: ·)).Placed where
  home := fun i v hv => by
    rw [shardOf_of_hash (hash_onShard _)]
    rw [shard_onShard] at hv
    split at hv
    · rename_i hi
      rcases List.mem_cons.mp hv with rfl | hv
      · exact hi
      · exact h.home i v hv
    · exact h.home i v hv
  apart := fun i => by
    rw [shard_onShard]
    split
    · rename_i hi
      refine List.nodup_cons.mpr ⟨fun hm => ?_, h.apart i⟩
      obtain ⟨v, hv, ht⟩ := List.mem_map.mp hm
      rw [find?_eq_find?_shard, hi, List.find?_eq_none] at hw
      exact hw v hv (by simp [ht])
    · exact h.apart i

theorem Placed.leave (h : r.Placed) :
    (r.onShard t (·.filter fun w => w.token ≠ t)).Placed where
  home := fun i v hv => by
    rw [shardOf_of_hash (hash_onShard _)]
    rw [shard_onShard] at hv
    split at hv
    · exact h.home i v (List.mem_of_mem_filter hv)
    · exact h.home i v hv
  apart := fun i => by
    rw [shard_onShard]
    split
    · exact (h.apart i).sublist (List.filter_sublist.map _)
    · exact h.apart i

/-! ## All shards together -/

/-- The tokens of all registered waiters. -/
def tokens (r : Registry) : List CorrelationToken := r.shards.toList.flatten.map Waiter.token

theorem size_eq_length_tokens : r.size = r.tokens.length := by
  have hsum (n : Nat) (shards : List (List Waiter)) :
      shards.foldl (fun n waiters => n + waiters.length) n = n + shards.flatten.length := by
    induction shards generalizing n with
    | nil => rfl
    | cons ws shards ih => simp [ih, Nat.add_assoc]
  rw [size, hsum, tokens, List.length_map, Nat.zero_add]

theorem mem_toList_shards {ws : List Waiter} : ws ∈ r.shards.toList ↔ ∃ i, r.shard i = ws := by
  rw [Vector.mem_toList_iff, Vector.mem_iff_getElem]
  exact ⟨fun ⟨i, hi, h⟩ => ⟨⟨i, hi⟩, h⟩, fun ⟨i, h⟩ => ⟨i, i.isLt, h⟩⟩

/-- A token that somebody is registered for is that of a waiter in some shard. -/
theorem Placed.mem_tokens (h : r.Placed) : k ∈ r.tokens ↔ r.contains k = true := by
  rw [contains, Option.isSome_iff_exists]
  constructor
  · intro hk
    obtain ⟨w, hw, rfl⟩ := List.mem_map.mp hk
    obtain ⟨ws, hws, hw⟩ := List.mem_flatten.mp hw
    obtain ⟨i, rfl⟩ := mem_toList_shards.mp hws
    rw [find?_eq_find?_shard, h.home i w hw, ← Option.isSome_iff_exists, List.find?_isSome]
    exact ⟨w, hw, by simp⟩
  · rintro ⟨w, hw⟩
    exact List.mem_map.mpr ⟨w, List.mem_flatten.mpr
      ⟨_, mem_toList_shards.mpr ⟨_, rfl⟩, mem_shard_of_find? hw⟩, token_of_find? hw⟩

theorem Placed.nodup_tokens (h : r.Placed) : r.tokens.Nodup := by
  rw [tokens, List.map_flatten, List.nodup_flatten, List.pairwise_map]
  constructor
  · intro ts hts
    obtain ⟨ws, hws, rfl⟩ := List.mem_map.mp hts
    obtain ⟨i, rfl⟩ := mem_toList_shards.mp hws
    exact h.apart i
  · refine List.pairwise_iff_getElem.mpr fun i j hi hj hij => ?_
    have hi' : i < 16 := by simpa using hi
    have hj' : j < 16 := by simpa using hj
    rw [List.disjoint_iff_ne]
    rintro _ ha _ hb rfl
    obtain ⟨v, hv, rfl⟩ := List.mem_map.mp ha
    obtain ⟨w, hw, hvw⟩ := List.mem_map.mp hb
    -- Both waiters have the same token, and so the same shard.
    have hvi := h.home ⟨i, hi'⟩ v hv
    have hwj := h.home ⟨j, hj'⟩ w hw
    rw [hvw, hvi, Fin.mk.injEq] at hwj
    exact Nat.ne_of_lt hij hwj

/-- The shards together count the tokens that somebody is registered for. -/
theorem Placed.size_eq_card (h : r.Placed) {ts : Finset CorrelationToken}
    (hts : ∀ k, k ∈ ts ↔ r.contains k = true) : r.size = ts.card := by
  have heq : ts = r.tokens.toFinset := by
    ext k
    rw [hts, List.mem_toFinset, h.mem_tokens]
  rw [heq, List.toFinset_card_of_nodup h.nodup_tokens, size_eq_length_tokens]

end Billing.Completion.Registry
