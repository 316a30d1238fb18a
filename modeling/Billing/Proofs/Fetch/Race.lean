import Billing.Fetch.Parallel
import Billing.Proofs.Fetch.Values

/-!
# What comes first

A run that makes its fetches at once can end in few ways, each at its moment: it is interrupted, a
fetch fails, the last value comes, or the deadline comes. Which of them comes first depends neither
on the order in which the fetches were submitted nor on how the run waits for them.
-/

namespace Billing.Fetch

variable {α ε : Type}

/-- The failure that a fetch brings about, if it does not end with a value. -/
def Source.failure? (f : Source α ε) : Option (Failure ε) :=
  match f.ending with
  | .value _ => none
  | .error e => some (.source f.name e)
  | .crash => some (.crashed f.name)

theorem Source.failure?_eq_none_iff {f : Source α ε} :
    f.failure? = none ↔ ∃ a, f.ending = .value a := by
  unfold failure?
  cases f.ending <;> simp

namespace Parallel

/-- The moment at which the last fetch ends. Where there are no fetches that is the start of the
run, unless it is interrupted at once. -/
def EndsLast (c : Circumstances) (fetches : List (Source α ε)) (t : Nat) : Prop :=
  (∃ f ∈ fetches, endTime? c f = some t) ∨ fetches = [] ∧ t = 0 ∧ c.interruptAt ≠ some 0

/-- In what way a run can end at a moment. -/
inductive Ends (c : Circumstances) (fetches : List (Source α ε)) :
    Nat → Except (Failure ε) (Outcome α) → Prop where
  | interrupted {t : Nat} (time : c.interruptAt = some t) : Ends c fetches t (.error .interrupted)
  | failed {f : Source α ε} {t : Nat} {x : Failure ε} (mem : f ∈ fetches)
      (time : endTime? c f = some t) (failure : f.failure? = some x) : Ends c fetches t (.error x)
  | complete {t : Nat} {values : Values α}
      (ended : ∀ f ∈ fetches, f.failure? = none ∧ ∃ u ≤ t, endTime? c f = some u)
      (last : EndsLast c fetches t) (collects : values.Collects fetches) :
      Ends c fetches t (.ok (.complete values))
  /-- The missing names are those of the fetches that have not ended before the deadline. -/
  | unavailable {missing : List String} (rising : missing.Pairwise (· < ·))
      (mem_iff : ∀ n, n ∈ missing ↔
        ∃ f ∈ fetches, f.name = n ∧ ¬ ∃ t < c.deadline, endTime? c f = some t) :
      Ends c fetches c.deadline (.ok (.unavailable missing))

/-- A run can end in this way at this moment, and in no way before. -/
structure First (c : Circumstances) (fetches : List (Source α ε)) (t : Nat)
    (r : Except (Failure ε) (Outcome α)) : Prop where
  ends : Ends c fetches t r
  least : ∀ {u q}, Ends c fetches u q → t ≤ u

/-- The moments at which something comes to a run: its deadline, its interruption, and the ends of
its fetches. -/
def instants (c : Circumstances) (fetches : List (Source α ε)) : List Nat :=
  c.deadline :: (c.interruptAt.toList ++ fetches.filterMap (endTime? c))

variable {c : Circumstances} {fetches gs : List (Source α ε)} {f g : Source α ε} {t u : Nat}
  {r q : Except (Failure ε) (Outcome α)}

/-! ## Moments that are all distinct -/

section Distinct

theorem eq_of_nodup_filterMap {β γ : Type} {k : β → Option γ} {xs : List β}
    (h : (xs.filterMap k).Nodup) {a b : β} {x : γ} (ha : a ∈ xs) (hb : b ∈ xs)
    (hka : k a = some x) (hkb : k b = some x) : a = b := by
  induction xs with
  | nil => cases ha
  | cons y ys ih =>
      have htail : (ys.filterMap k).Nodup := by
        cases hy : k y <;> simp_all
      have hmem : ∀ {z}, z ∈ ys → k z = some x → x ∈ ys.filterMap k := by
        intro z hz hk
        exact List.mem_filterMap.mpr ⟨z, hz, hk⟩
      rcases List.mem_cons.mp ha with rfl | hay <;> rcases List.mem_cons.mp hb with rfl | hby
      · rfl
      · have := hmem hby hkb
        simp_all
      · have := hmem hay hka
        simp_all
      · exact ih htail hay hby

variable (h : (instants c fetches).Nodup)
include h

theorem ne_deadline (hf : f ∈ fetches) (ht : endTime? c f = some t) : t ≠ c.deadline := by
  rintro rfl
  apply (List.nodup_cons.mp h).1
  exact List.mem_append_right _ (List.mem_filterMap.mpr ⟨f, hf, ht⟩)

theorem interrupt_ne_deadline : c.interruptAt ≠ some c.deadline := by
  intro hi
  apply (List.nodup_cons.mp h).1
  rw [hi]
  exact List.mem_append_left _ List.mem_cons_self

theorem interrupt_ne (hf : f ∈ fetches) (ht : endTime? c f = some t) :
    c.interruptAt ≠ some t := by
  intro hi
  have hd := (List.nodup_append.mp (List.nodup_cons.mp h).2).2.2
  rw [hi] at hd
  exact hd t List.mem_cons_self t (List.mem_filterMap.mpr ⟨f, hf, ht⟩) rfl

theorem eq_of_endTime? (hf : f ∈ fetches) (hg : g ∈ fetches) (hft : endTime? c f = some t)
    (hgt : endTime? c g = some t) : f = g :=
  eq_of_nodup_filterMap (List.nodup_append.mp (List.nodup_cons.mp h).2).2.1 hf hg hft hgt

/-! ## One way at most -/

theorem Ends.of_interrupted (hr : Ends c fetches t r) (hi : c.interruptAt = some t) :
    r = .error .interrupted := by
  cases hr with
  | interrupted => rfl
  | failed hf ht _ => exact absurd hi (interrupt_ne h hf ht)
  | complete _ hlast _ =>
      rcases hlast with ⟨f, hf, ht⟩ | ⟨_, rfl, hne⟩
      · exact absurd hi (interrupt_ne h hf ht)
      · exact absurd hi hne
  | unavailable => exact absurd hi (interrupt_ne_deadline h)

theorem Ends.of_failed {x : Failure ε} (hr : Ends c fetches t r) (hf : f ∈ fetches)
    (ht : endTime? c f = some t) (hx : f.failure? = some x) : r = .error x := by
  cases hr with
  | interrupted hi => exact absurd hi (interrupt_ne h hf ht)
  | failed hg hgt hy =>
      cases eq_of_endTime? h hf hg ht hgt
      rw [hx] at hy
      cases hy
      rfl
  | complete hall _ _ =>
      have hnone := (hall f hf).1
      rw [hx] at hnone
      cases hnone
  | unavailable => exact absurd rfl (ne_deadline h hf ht)

theorem Ends.of_deadline (hd : 0 < c.deadline) (hr : Ends c fetches t r) (ht : t = c.deadline) :
    ∃ missing, r = .ok (.unavailable missing) ∧ missing.Pairwise (· < ·) ∧
      ∀ n, n ∈ missing ↔
        ∃ f ∈ fetches, f.name = n ∧ ¬ ∃ t < c.deadline, endTime? c f = some t := by
  cases hr with
  | interrupted hi => exact absurd (ht ▸ hi) (interrupt_ne_deadline h)
  | failed hf hft _ => exact absurd ht (ne_deadline h hf hft)
  | complete _ hlast _ =>
      rcases hlast with ⟨f, hf, hft⟩ | ⟨_, rfl, _⟩
      · exact absurd ht (ne_deadline h hf hft)
      · exact absurd ht (Nat.ne_of_lt hd)
  | unavailable hrising hmissing => exact ⟨_, rfl, hrising, hmissing⟩

theorem Ends.unique (hd : 0 < c.deadline) (hr : Ends c fetches t r) (hq : Ends c fetches t q) :
    r = q := by
  cases hr with
  | interrupted hi => exact (hq.of_interrupted h hi).symm
  | failed hf ht hx => exact (hq.of_failed h hf ht hx).symm
  | unavailable hrising hmissing =>
      obtain ⟨missing, rfl, hrising', hmissing'⟩ := hq.of_deadline h hd rfl
      rw [eq_of_rising (· < ·) String.lt_irrefl (fun _ _ _ => String.lt_trans) hrising hrising'
        fun n => (hmissing n).trans (hmissing' n).symm]
  | complete hall hlast hvalues =>
      cases hq with
      | interrupted hi => exact (Ends.complete hall hlast hvalues).of_interrupted h hi
      | failed hf ht hx => exact (Ends.complete hall hlast hvalues).of_failed h hf ht hx
      | complete _ _ hvalues' => rw [hvalues.eq hvalues' fun _ => Iff.rfl]
      | unavailable =>
          obtain ⟨_, hr, _⟩ := (Ends.complete hall hlast hvalues).of_deadline h hd rfl
          cases hr

/-- What comes first is determined. -/
theorem First.unique (hd : 0 < c.deadline) (hr : First c fetches t r) (hq : First c fetches u q) :
    t = u ∧ r = q := by
  have htu : t = u := Nat.le_antisymm (hr.least hq.ends) (hq.least hr.ends)
  subst htu
  exact ⟨rfl, hr.ends.unique h hd hq.ends⟩

end Distinct

/-! ## Fetches in another order -/

theorem Ends.of_members (h : Ends c fetches t r) (hm : ∀ f, f ∈ fetches ↔ f ∈ gs) :
    Ends c gs t r := by
  cases h with
  | interrupted hi => exact .interrupted hi
  | failed hf ht hx => exact .failed ((hm _).mp hf) ht hx
  | complete hall hlast hvalues =>
      refine .complete (fun f hf => hall f ((hm f).mpr hf)) ?_ (hvalues.of_members hm)
      rcases hlast with ⟨f, hf, ht⟩ | ⟨rfl, hzero⟩
      · exact Or.inl ⟨f, (hm f).mp hf, ht⟩
      · refine Or.inr ⟨List.eq_nil_iff_forall_not_mem.mpr fun f hf => ?_, hzero⟩
        cases (hm f).mpr hf
  | unavailable hrising hmissing =>
      refine .unavailable hrising fun n => (hmissing n).trans ?_
      simp only [hm]

theorem First.of_members (h : First c fetches t r) (hm : ∀ f, f ∈ fetches ↔ f ∈ gs) :
    First c gs t r :=
  ⟨h.ends.of_members hm, fun hq => h.least (hq.of_members fun f => (hm f).symm)⟩

end Parallel

end Billing.Fetch
