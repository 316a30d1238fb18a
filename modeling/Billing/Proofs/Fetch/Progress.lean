import Mathlib.Algebra.Order.Floor.Div
import Billing.Proofs.Fetch.Parallel

/-!
# How runs that make all fetches at once get on

A run joins each of its fetches at most once, and an attempt in which it joins none costs it time.
Whenever the fetches may come to their ends, and whichever of them is joined first, the run turns no
more often than it has fetches and attempts, and at every turn its books are right.
-/

namespace Billing.Fetch.Parallel

variable {α ε : Type} {c : Circumstances} {p : Pace} {s s' s₀ : State α ε} {m : Move α ε}
  {fetches joined : List (Source α ε)} {found : Option (Source α ε)} {k : Nat}

/-! ## One turn -/

/-- The time up to which an attempt may last that begins now. -/
def State.limit (s : State α ε) (p : Pace) (c : Circumstances) : Nat :=
  s.elapsed + min p.attempt (c.deadline - s.elapsed)

/-- What one turn may do, and which fetch it finds at its end. Any fetch that is still running may
come to its end at any moment of an attempt. -/
inductive Attempts (p : Pace) (c : Circumstances) (s : State α ε) :
    Option (Source α ε) → Move α ε → Prop where
  | stops {v : Verdict α ε} {s' : State α ε} (le : s'.elapsed ≤ s.limit p c) :
      Attempts p c s none (.stop v s')
  | joins {time i : Nat} {f : Source α ε} {m : Move α ε} (mem : (i, f) ∈ s.running)
      (from_now : s.elapsed ≤ time) (le : time ≤ s.limit p c)
      (joins : (s.passTo c time).join c i f = m) : Attempts p c s (some f) m
  | waits (lt : s.elapsed < c.deadline) : Attempts p c s none (.goOn (s.passTo c (s.limit p c)))

/-- A run has gone on for so many turns, and has joined these fetches, the latest in front. -/
inductive Turns (p : Pace) (c : Circumstances) (s₀ : State α ε) :
    Nat → List (Source α ε) → State α ε → Prop where
  | start : Turns p c s₀ 0 [] s₀
  | turn {k : Nat} {joined : List (Source α ε)} {found : Option (Source α ε)} {s s' : State α ε}
      (h : Turns p c s₀ k joined s) (attempts : Attempts p c s found (.goOn s')) :
      Turns p c s₀ (k + 1) (found.toList ++ joined) s'

theorem actAt_attempts {time : Nat} {act : State α ε → Move α ε} (hle : time ≤ s.limit p c)
    (hact : ∃ found, Attempts p c s found (act (s.passTo c time))) :
    ∃ found, Attempts p c s found (s.actAt c time act) := by
  unfold State.actAt
  split
  · rename_i hd
    have hlt : c.dropAt.getD 0 < time := by
      rw [Circumstances.droppedBefore, Option.any_eq_true] at hd
      obtain ⟨d, hdrop, hlt⟩ := hd
      simpa [hdrop] using hlt
    exact ⟨none, .stops (Nat.le_trans (Nat.le_of_lt hlt) hle)⟩
  · exact hact

theorem idle_attempts (hlt : s.elapsed < c.deadline) :
    ∃ found, Attempts p c s found (s.idle c (s.limit p c)) := by
  have hwait : ∃ found, Attempts p c s found (s.actAt c (s.limit p c) .goOn) :=
    actAt_attempts (Nat.le_refl _) ⟨none, .waits hlt⟩
  unfold State.idle
  split
  · split
    · rename_i hle
      exact actAt_attempts hle ⟨none, .stops hle⟩
    · exact hwait
  · exact hwait

/-- What a turn does is among what it may do. -/
theorem next_attempts (p : Pace) (c : Circumstances) (s : State α ε) :
    ∃ found, Attempts p c s found (s.next c p) := by
  have hnow : s.elapsed ≤ s.limit p c := Nat.le_add_right ..
  unfold State.next
  simp only
  split
  · exact ⟨none, .stops hnow⟩
  · rename_i hz
    have hidle : ∃ found, Attempts p c s found (s.idle c (s.limit p c)) :=
      idle_attempts (by omega)
    split
    · exact ⟨none, .stops hnow⟩
    · split
      · exact ⟨none, .stops hnow⟩
      · split
        · exact hidle
        · rename_i hfirst
          split
          · rename_i hjoin
            exact actAt_attempts hjoin.1
              ⟨_, .joins (mem_of_earliest? hfirst) (Nat.le_max_right ..) hjoin.1 rfl⟩
          · exact hidle

/-- The state of the loop at its next turn after so many, if it goes on for so long. -/
def State.after? (s : State α ε) (p : Pace) (c : Circumstances) : Nat → Option (State α ε)
  | 0 => some s
  | k + 1 =>
    match s.after? p c k with
    | none => none
    | some s' =>
      match s'.next c p with
      | .goOn s'' => some s''
      | .stop _ _ => none

theorem after?_succ_of_goOn (h : s₀.after? p c k = some s) (hnext : s.next c p = .goOn s') :
    s₀.after? p c (k + 1) = some s' := by
  simp [State.after?, h, hnext]

theorem exists_of_after?_succ (h : s₀.after? p c (k + 1) = some s') :
    ∃ s, s₀.after? p c k = some s ∧ s.next c p = .goOn s' := by
  unfold State.after? at h
  split at h
  · cases h
  · rename_i s hs
    split at h
    · rename_i hnext
      cases h
      exact ⟨s, hs, hnext⟩
    · cases h

/-- What the loop does is among what it may do. -/
theorem turns_of_after? (h : s₀.after? p c k = some s) : ∃ joined, Turns p c s₀ k joined s := by
  induction k generalizing s with
  | zero =>
      cases h
      exact ⟨[], .start⟩
  | succ k ih =>
      obtain ⟨s', hs', hnext⟩ := exists_of_after?_succ h
      obtain ⟨joined, hturns⟩ := ih hs'
      obtain ⟨found, hfound⟩ := next_attempts p c s'
      exact ⟨_, hturns.turn (hnext ▸ hfound)⟩

/-- The loop comes to a turn that ends it. -/
theorem exists_last_turn (h : s₀.after? p c k = some s) :
    ∃ k' s', s₀.after? p c k' = some s' ∧
      s'.next c p = .stop (finish p c s).1 (finish p c s).2 := by
  induction s using Parallel.finish.induct p c generalizing k with
  | case1 s s' hs ih =>
      rw [finish, hs]
      exact ih (after?_succ_of_goOn h hs)
  | case2 s v s' hs =>
      rw [finish, hs]
      exact ⟨k, s, h, hs⟩

/-! ## Time and turns -/

/-- The state that a move leads to. -/
def Move.state : Move α ε → State α ε
  | .goOn s => s
  | .stop _ s => s

theorem elapsed_join (s : State α ε) (c : Circumstances) (i : Nat) (f : Source α ε) :
    (s.join c i f).state.elapsed = s.elapsed := by
  unfold State.join
  cases f.ending <;> rfl

theorem limit_le (h : s.elapsed ≤ c.deadline) : s.limit p c ≤ c.deadline := by
  rw [State.limit]
  omega

theorem Attempts.elapsed_le (h : Attempts p c s found m) : m.state.elapsed ≤ s.limit p c := by
  cases h with
  | stops hle => exact hle
  | joins _ _ hle hjoin =>
      rw [← hjoin, elapsed_join]
      exact hle
  | waits => exact Nat.le_refl _

theorem Turns.elapsed_le (h : Turns p c s₀ k joined s) (hs : s₀.elapsed ≤ c.deadline) :
    s.elapsed ≤ c.deadline := by
  induction h with
  | start => exact hs
  | turn _ hturn ih => exact Nat.le_trans hturn.elapsed_le (limit_le ih)

/-- The turns that are left: one for each fetch, and one for each attempt that there is time for. -/
def turnsLeft (p : Pace) (c : Circumstances) (s : State α ε) : Nat :=
  s.running.length + (c.deadline - s.elapsed) ⌈/⌉ p.attempt

/-- An attempt takes away what is less than it, or as much as it lasts. -/
theorem ceilDiv_sub_lt {a d : Nat} (ha : 0 < a) (hd : 0 < d) : (d - min a d) ⌈/⌉ a < d ⌈/⌉ a := by
  have hle : d ≤ a * (d ⌈/⌉ a) := le_smul_ceilDiv ha
  have hpos : 0 < d ⌈/⌉ a := by
    apply Nat.pos_of_ne_zero
    intro hz
    rw [hz] at hle
    omega
  refine Nat.lt_of_le_of_lt ((ceilDiv_le_iff_le_mul ha).mpr ?_) (Nat.sub_one_lt_of_lt hpos)
  rw [Nat.mul_sub_one]
  omega

theorem Attempts.turnsLeft_lt (h : Attempts p c s found (.goOn s')) :
    turnsLeft p c s' < turnsLeft p c s := by
  cases h with
  | @joins time i f m hmem hfrom hle hjoin =>
      obtain ⟨helapsed, hrunning⟩ := State.goOn_of_join hjoin
      have hlength : s'.running.length < s.running.length := by
        rw [hrunning]
        exact List.length_filter_lt_length_iff_exists.mpr ⟨(i, f), hmem, by simp⟩
      have htime : c.deadline - s'.elapsed ≤ c.deadline - s.elapsed := by
        rw [helapsed]
        exact Nat.sub_le_sub_left hfrom _
      exact Nat.add_lt_add_of_lt_of_le hlength ((gc_mul_ceilDiv p.pos).monotone_l htime)
  | waits hlt =>
      apply Nat.add_lt_add_left
      have hleft : c.deadline - s.limit p c =
          c.deadline - s.elapsed - min p.attempt (c.deadline - s.elapsed) := by
        rw [State.limit, Nat.sub_add_eq]
      rw [State.passTo, hleft]
      exact ceilDiv_sub_lt p.pos (Nat.sub_pos_of_lt hlt)

theorem Turns.add_turnsLeft_le (h : Turns p c s₀ k joined s) :
    k + turnsLeft p c s ≤ turnsLeft p c s₀ := by
  induction h with
  | start => exact Nat.le_of_eq (Nat.zero_add _)
  | turn _ hturn ih =>
      have := hturn.turnsLeft_lt
      omega

/-! ## The books at every turn -/

/-- A tally in which the fetches are numbered as they were submitted. -/
structure Numbered (fetches joined : List (Source α ε)) (s : State α ε) : Prop where
  tally : Tally fetches joined s
  number : ∀ r ∈ s.running, fetches[r.1]? = some r.2

theorem Numbered.initial (fetches : List (Source α ε)) (cancelled : Cancelled) :
    Numbered fetches [] (State.initial fetches cancelled) where
  tally := .initial fetches cancelled
  number r hr := by
    obtain ⟨⟨f, i⟩, hf, rfl⟩ := List.mem_map.mp hr
    exact List.mem_zipIdx_iff_getElem?.mp hf

section Names

variable (hn : (fetches.map (·.name)).Nodup)
include hn

theorem Attempts.numbered (h : Attempts p c s found (.goOn s')) (hs : Numbered fetches joined s) :
    Numbered fetches (found.toList ++ joined) s' := by
  cases h with
  | @joins time i f m hmem _ _ hjoin =>
      have hpassed : Tally fetches joined (s.passTo c time) :=
        ⟨hs.tally.gathers, hs.tally.numbers, hs.tally.pending⟩
      have hjoined := hpassed.join hn hmem c
      rw [hjoin] at hjoined
      cases hjoined with
      | entered _ hsub htally => exact ⟨htally, fun r hr => hs.number r (hsub hr)⟩
  | waits => exact ⟨⟨hs.tally.gathers, hs.tally.numbers, hs.tally.pending⟩, hs.number⟩

theorem Turns.numbered (h : Turns p c s₀ k joined s) (hs : Numbered fetches [] s₀) :
    Numbered fetches joined s := by
  induction h with
  | start => exact hs
  | turn _ hturn ih => exact hturn.numbered hn ih

end Names

/-- The books of a run as they stand at a turn, when it has joined these fetches. -/
structure Kept (fetches joined : List (Source α ε)) (s : State α ε) : Prop where
  /-- Every name stands either with its value or among the pending ones. -/
  names : (s.values.map (·.1) ++ s.pending.map (·.2)).Perm (fetches.map (·.name))
  /-- The pending ones are those of the fetches that have not been joined. -/
  pending : ∀ i n, (i, n) ∈ s.pending ↔ ∃ f, fetches[i]? = some f ∧ f.name = n ∧ f ∉ joined
  /-- The values are those of the fetches that have. -/
  values : s.values.Collects joined
  /-- Whichever fetch is joined next, its name is found, -/
  found : ∀ r ∈ s.running, s.pending.lookup r.1 = some r.2.name
  /-- and no value stands under it. -/
  fresh : ∀ r ∈ s.running, ¬ s.values.Has r.2.name

theorem Numbered.kept (h : Numbered fetches joined s) (hn : (fetches.map (·.name)).Nodup) :
    Kept fetches joined s where
  names := by
    rw [h.tally.pending_names]
    refine ((h.tally.gathers.perm_names hn).append_right _).trans ?_
    rw [← List.map_append]
    exact h.tally.gathers.split.map _
  pending i n := by
    have hfetches : fetches.Nodup := .of_map _ hn
    have hdisjoint : ∀ f ∈ joined, ∀ r ∈ s.running, f ≠ r.2 := by
      intro f hf r hr
      have hboth := h.tally.gathers.split.nodup_iff.mpr hfetches
      exact (List.nodup_append.mp hboth).2.2 f hf r.2 (List.mem_map.mpr ⟨r, hr, rfl⟩)
    rw [h.tally.pending, List.mem_map]
    constructor
    · rintro ⟨r, hr, heq⟩
      cases heq
      exact ⟨r.2, h.number r hr, rfl, fun hf => hdisjoint _ hf r hr rfl⟩
    · rintro ⟨f, hi, rfl, hf⟩
      obtain ⟨j, hj⟩ := (h.tally.mem_iff.mp (List.mem_of_getElem? hi)).resolve_left hf
      obtain ⟨hlt, _⟩ := List.getElem?_eq_some_iff.mp hi
      obtain rfl := (List.getElem?_inj hlt hfetches).mp (hi.trans (h.number _ hj).symm)
      exact ⟨_, hj, rfl⟩
  values := h.tally.gathers.collects
  found r hr := by
    rw [h.tally.pending]
    exact Tally.lookup_pending h.tally.numbers hr
  fresh r hr := h.tally.gathers.not_has_of_mem hn (List.mem_map.mpr ⟨r, hr, rfl⟩)

/-! ## Whole loops -/

/-- The state in which a run begins. -/
def State.begun (c : Circumstances) (fetches : List (Source α ε)) (cancelled : Cancelled) :
    State α ε :=
  State.initial fetches (c.cancelledAt 0 cancelled)

theorem turnsLeft_begun (c : Circumstances) (fetches : List (Source α ε)) (cancelled : Cancelled) :
    turnsLeft .standard c (State.begun c fetches cancelled) =
      fetches.length + c.deadline ⌈/⌉ (100 : Nat) := by
  simp [turnsLeft, State.begun, State.initial, Pace.standard]

/-- How the loop of a run gets on. -/
structure GetsOn (c : Circumstances) (fetches : List (Source α ε)) (cancelled : Cancelled) :
    Prop where
  /-- Whenever the fetches come to their ends, the books are right at every turn, -/
  kept : ∀ k joined s, Turns .standard c (State.begun c fetches cancelled) k joined s →
    Kept fetches joined s
  /-- there are no more turns than fetches and attempts, and one, -/
  count : ∀ k joined s, Turns .standard c (State.begun c fetches cancelled) k joined s →
    k + 1 ≤ fetches.length + c.deadline ⌈/⌉ (100 : Nat) + 1
  /-- and no turn takes the run beyond the deadline. -/
  timely : ∀ k joined s found m, Turns .standard c (State.begun c fetches cancelled) k joined s →
    Attempts .standard c s found m → m.state.elapsed ≤ c.deadline
  /-- The turns of the loop that is made are among these. -/
  made : ∀ k s, (State.begun c fetches cancelled).after? .standard c k = some s →
    (∃ joined, Turns .standard c (State.begun c fetches cancelled) k joined s) ∧
      ∃ found, Attempts .standard c s found (s.next c .standard)
  /-- One of them is the last. It gives what the run reports, and not after the deadline. -/
  ends : ∃ k s s', (State.begun c fetches cancelled).after? .standard c k = some s ∧
    s.next c .standard = .stop (aggregate .parallel c fetches cancelled).verdict s' ∧
      (aggregate .parallel c fetches cancelled).elapsed = s'.elapsed ∧ s'.elapsed ≤ c.deadline

/-- At every turn of a run the names with values and the pending names make up the names of its
fetches, and what is pending are the fetches that have not been joined: a fetch that is joined finds
its name, under which no value stands yet. The loop comes to its end within one turn for each fetch,
one for each tenth of a second up to the deadline, and one more, and not after the deadline. -/
theorem gets_on (hn : (fetches.map (·.name)).Nodup) (c : Circumstances) (cancelled : Cancelled) :
    GetsOn c fetches cancelled where
  kept k joined s h := (h.numbered hn (.initial fetches _)).kept hn
  count k joined s h := by
    have hle := h.add_turnsLeft_le
    rw [turnsLeft_begun] at hle
    omega
  timely k joined s found m h hm :=
    Nat.le_trans hm.elapsed_le (limit_le (h.elapsed_le (Nat.zero_le _)))
  made k s h := ⟨turns_of_after? h, next_attempts .standard c s⟩
  ends := by
    have hstart : (State.begun c fetches cancelled).after? .standard c 0 =
        some (State.begun c fetches cancelled) := rfl
    obtain ⟨k, s, hs, hnext⟩ := exists_last_turn hstart
    obtain ⟨joined, hturns⟩ := turns_of_after? hs
    obtain ⟨found, hfound⟩ := next_attempts .standard c s
    rw [hnext] at hfound
    rw [aggregate_parallel hn]
    refine ⟨k, s, _, hs, hnext, rfl, ?_⟩
    exact Nat.le_trans hfound.elapsed_le (limit_le (hturns.elapsed_le (Nat.zero_le _)))

/-- Two fetches, the second of which comes to its end in the second attempt. -/
theorem two_get_on :
    let fetches : List (Source Nat String) :=
      [⟨"account", .after 10, .value 1⟩, ⟨"invoices", .after 150, .value 2⟩]
    (fetches.map (·.name)).Nodup ∧
      GetsOn (Circumstances.under (.root 0) 0 200 none none) fetches .none :=
  ⟨by decide, gets_on (by decide) _ _⟩

end Billing.Fetch.Parallel
