import Billing.Fetch.Aggregator
import Billing.Proofs.Fetch.Race

/-!
# Runs that make all fetches at once

A run keeps books of the fetches that it has joined and of those that are still running. Time passes
no end of a fetch, no interruption and no deadline unseen, so the run ends with what comes first.
-/

namespace Billing.Fetch

variable {α ε : Type}

theorem Circumstances.interruptedBy_iff {c : Circumstances} {time : Nat} :
    c.interruptedBy time = true ↔ ∃ t, c.interruptAt = some t ∧ t ≤ time := by
  unfold interruptedBy
  cases c.interruptAt <;> simp

theorem Circumstances.interruptedBy_eq_false_iff {c : Circumstances} {time : Nat} :
    c.interruptedBy time = false ↔ ∀ t, c.interruptAt = some t → time < t := by
  unfold interruptedBy
  cases c.interruptAt <;> simp

namespace Parallel

open scoped List

variable {c : Circumstances} {p : Pace} {s : State α ε} {f : Source α ε} {t i : Nat}

/-! ## The fetch that ends first -/

theorem earliest?_eq_none {fs : List (Nat × Source α ε)} (h : earliest? c fs = none) :
    ∀ r ∈ fs, endTime? c r.2 = none := by
  induction fs with
  | nil => simp
  | cons r rest ih =>
      unfold earliest? at h
      split at h
      · rename_i hr
        intro g hg
        rcases List.mem_cons.mp hg with rfl | hg
        · exact hr
        · exact ih h g hg
      · cases h
      · split at h <;> cases h

theorem earliest?_eq_some {fs : List (Nat × Source α ε)} (h : earliest? c fs = some (t, i, f)) :
    endTime? c f = some t ∧ ∀ r ∈ fs, ∀ u, endTime? c r.2 = some u → t ≤ u := by
  induction fs generalizing t i f with
  | nil => cases h
  | cons r rest ih =>
      unfold earliest? at h
      split at h
      · rename_i hr
        obtain ⟨ht, hle⟩ := ih h
        refine ⟨ht, fun g hg u hu => ?_⟩
        rcases List.mem_cons.mp hg with rfl | hg
        · rw [hr] at hu
          cases hu
        · exact hle g hg u hu
      · rename_i hr hrest
        cases h
        refine ⟨hr, fun g hg u hu => ?_⟩
        rcases List.mem_cons.mp hg with rfl | hg
        · rw [hr] at hu
          cases hu
          exact Nat.le_refl _
        · rw [earliest?_eq_none hrest g hg] at hu
          cases hu
      · rename_i v later hr hrest
        obtain ⟨w, j, k⟩ := later
        obtain ⟨ht, hle⟩ := ih hrest
        split at h
        · rename_i hlt
          cases h
          refine ⟨ht, fun g hg u hu => ?_⟩
          rcases List.mem_cons.mp hg with rfl | hg
          · rw [hr] at hu
            cases hu
            exact Nat.le_of_lt hlt
          · exact hle g hg u hu
        · rename_i hnlt
          cases h
          refine ⟨hr, fun g hg u hu => ?_⟩
          rcases List.mem_cons.mp hg with rfl | hg
          · rw [hr] at hu
            cases hu
            exact Nat.le_refl _
          · exact Nat.le_trans (Nat.le_of_not_lt hnlt) (hle g hg u hu)

theorem le_of_quiet {limit : Nat} (hlt : s.elapsed < limit)
    (hquiet : ∀ u i f, earliest? c s.running = some (u, i, f) → limit ≤ max u s.elapsed) :
    ∀ r ∈ s.running, ∀ u, endTime? c r.2 = some u → limit ≤ u := by
  intro r hr u hu
  cases he : earliest? c s.running with
  | none =>
      rw [earliest?_eq_none he r hr] at hu
      cases hu
  | some first =>
      obtain ⟨v, j, g⟩ := first
      have hv := (earliest?_eq_some he).2 r hr u hu
      have := hquiet v j g he
      omega

/-! ## One turn -/

/-- What a run that nobody drops can do in one turn. -/
inductive Turn (c : Circumstances) (s : State α ε) : Move α ε → Prop where
  | late (time : c.deadline ≤ s.elapsed) :
      Turn c s (s.close c (.answered (.ok (.unavailable (inOrder (s.pending.map (·.2)))))))
  /-- An interruption is seen at once. -/
  | interrupted {t : Nat} (time : s.elapsed < c.deadline) (interrupt : c.interruptAt = some t)
      (le : t ≤ s.elapsed) : Turn c s (s.close c (.answered (.error .interrupted)))
  | complete (time : s.elapsed < c.deadline) (calm : ∀ t, c.interruptAt = some t → s.elapsed < t)
      (running : s.running = []) : Turn c s (s.close c (.answered (.ok (.complete s.values))))
  | joins {t i : Nat} {f : Source α ε} (first : earliest? c s.running = some (t, i, f))
      (le : max t s.elapsed ≤ c.deadline)
      (calm : ∀ u, c.interruptAt = some u → max t s.elapsed < u) :
      Turn c s ((s.passTo c (max t s.elapsed)).join c i f)
  /-- An interruption comes while nothing can be joined. -/
  | stops {t : Nat} (running : s.running ≠ []) (interrupt : c.interruptAt = some t)
      (lt : s.elapsed < t) (le : t ≤ c.deadline)
      (quiet : ∀ u i f, earliest? c s.running = some (u, i, f) → t ≤ max u s.elapsed) :
      Turn c s ((s.passTo c t).close c (.answered (.error .interrupted)))
  /-- An attempt goes by in which nothing can be joined. -/
  | waits {limit : Nat} (running : s.running ≠ []) (lt : s.elapsed < limit)
      (le : limit ≤ c.deadline) (calm : ∀ u, c.interruptAt = some u → limit < u)
      (quiet : ∀ u i f, earliest? c s.running = some (u, i, f) → limit < max u s.elapsed) :
      Turn c s (.goOn (s.passTo c limit))

theorem actAt_of_not_dropped (hdrop : c.dropAt = none) (time : Nat)
    (act : State α ε → Move α ε) : s.actAt c time act = act (s.passTo c time) := by
  simp [State.actAt, Circumstances.droppedBefore, hdrop]

theorem idle_turn (hdrop : c.dropAt = none) {limit : Nat} (hr : s.running ≠ [])
    (hlt : s.elapsed < limit) (hle : limit ≤ c.deadline)
    (calm : ∀ t, c.interruptAt = some t → s.elapsed < t)
    (quiet : ∀ u i f, earliest? c s.running = some (u, i, f) →
      limit < max u s.elapsed ∨ ∃ t, c.interruptAt = some t ∧ t ≤ max u s.elapsed) :
    Turn c s (s.idle c limit) := by
  have hwait : (∀ u, c.interruptAt = some u → limit < u) → Turn c s (.goOn (s.passTo c limit)) := by
    intro hcalm
    refine .waits hr hlt hle hcalm fun u i f hf => ?_
    rcases quiet u i f hf with hu | ⟨t, ht, hu⟩
    · exact hu
    · have := hcalm t ht
      omega
  unfold State.idle
  split
  · rename_i t ht
    rw [actAt_of_not_dropped hdrop, actAt_of_not_dropped hdrop]
    split
    · rename_i htl
      refine .stops hr ht (calm t ht) (Nat.le_trans htl hle) fun u i f hf => ?_
      rcases quiet u i f hf with hu | ⟨t', ht', hu⟩
      · omega
      · rw [ht] at ht'
        cases ht'
        exact hu
    · rename_i htl
      apply hwait
      intro u hu
      rw [ht] at hu
      cases hu
      exact Nat.lt_of_not_le htl
  · rename_i hnone
    rw [actAt_of_not_dropped hdrop]
    apply hwait
    intro u hu
    rw [hnone] at hu
    cases hu

theorem next_turn (hdrop : c.dropAt = none) (p : Pace) (s : State α ε) :
    Turn c s (s.next c p) := by
  unfold State.next
  simp only
  split
  · rename_i hz
    exact .late (by omega)
  · rename_i hz
    have htime : s.elapsed < c.deadline := by omega
    split
    · rename_i hi
      obtain ⟨t, ht, hle⟩ := Circumstances.interruptedBy_iff.mp hi
      exact .interrupted htime ht hle
    · rename_i hi
      have hcalm := Circumstances.interruptedBy_eq_false_iff.mp (Bool.eq_false_iff.mpr hi)
      split
      · rename_i hr
        exact .complete htime hcalm (List.isEmpty_iff.mp hr)
      · rename_i hr
        have hr : s.running ≠ [] := fun h => hr (List.isEmpty_iff.mpr h)
        have hlt : s.elapsed < s.elapsed + min p.attempt (c.deadline - s.elapsed) := by
          have := p.pos
          omega
        have hle : s.elapsed + min p.attempt (c.deadline - s.elapsed) ≤ c.deadline := by omega
        split
        · rename_i hnone
          refine idle_turn hdrop hr hlt hle hcalm fun u i f hf => ?_
          rw [hnone] at hf
          cases hf
        · rename_i t i f hsome
          split
          · rename_i hjoin
            rw [actAt_of_not_dropped hdrop]
            refine .joins hsome (Nat.le_trans hjoin.1 hle) ?_
            exact Circumstances.interruptedBy_eq_false_iff.mp (by simpa using hjoin.2)
          · rename_i hjoin
            refine idle_turn hdrop hr hlt hle hcalm fun u j g hg => ?_
            rw [hsome] at hg
            cases hg
            rw [not_and_or, Bool.not_eq_true', Bool.not_eq_false,
              Circumstances.interruptedBy_iff] at hjoin
            exact hjoin.imp_left Nat.lt_of_not_le

/-! ## Which fetches have been joined -/

/-- These fetches have been joined, each with a value, and the others are still running. -/
structure Tally (fetches joined : List (Source α ε)) (s : State α ε) : Prop where
  gathers : s.values.Gathers fetches joined (s.running.map (·.2))
  numbers : (s.running.map (·.1)).Nodup
  pending : s.pending = s.running.map fun r => (r.1, r.2.name)

/-- What comes of joining a fetch: it is entered with its value, or its failure ends the run. -/
inductive Joined (fetches joined : List (Source α ε)) (s : State α ε) (f : Source α ε) :
    Move α ε → Prop where
  | entered {s' : State α ε} (elapsed : s'.elapsed = s.elapsed) (running : s'.running ⊆ s.running)
      (tally : Tally fetches (f :: joined) s') : Joined fetches joined s f (.goOn s')
  | failed {x : Failure ε} {s' : State α ε} (failure : f.failure? = some x)
      (elapsed : s'.elapsed = s.elapsed) (values : s'.values = s.values) :
      Joined fetches joined s f (.stop (.answered (.error x)) s')

namespace Tally

variable {fetches joined : List (Source α ε)}

theorem initial (fetches : List (Source α ε)) (cancelled : Cancelled) :
    Tally fetches [] (State.initial fetches cancelled) := by
  have hfst : (State.initial fetches cancelled).running.map (·.1) =
      List.range' 0 fetches.length := by
    rw [← List.zipIdx_map_snd 0 fetches]
    simp [State.initial, Function.comp_def]
  have hsnd : (State.initial fetches cancelled).running.map (·.2) = fetches := by
    simp [State.initial, Function.comp_def]
  exact {
    gathers := hsnd.symm ▸ .start fetches
    numbers := by
      rw [hfst]
      exact List.nodup_range'
    pending := by simp [State.initial, Function.comp_def] }

theorem mem_iff (h : Tally fetches joined s) :
    f ∈ fetches ↔ f ∈ joined ∨ ∃ i, (i, f) ∈ s.running := by
  rw [h.gathers.mem_iff]
  simp

theorem pending_names (h : Tally fetches joined s) :
    s.pending.map (·.2) = (s.running.map (·.2)).map (·.name) := by
  simp [h.pending, Function.comp_def]

/-- The names that have not been joined, in order. -/
theorem rising_pending (h : Tally fetches joined s) (hn : (fetches.map (·.name)).Nodup) :
    (inOrder (s.pending.map (·.2))).Pairwise (· < ·) := by
  rw [h.pending_names]
  exact rising_inOrder (List.nodup_append.mp (h.gathers.names hn)).2.1

/-! ### Joining -/

theorem perm_cons_filter {xs : List (Nat × Source α ε)} (h : (xs.map (·.1)).Nodup)
    (hm : (i, f) ∈ xs) : xs.Perm ((i, f) :: xs.filter fun r => r.1 != i) := by
  induction xs with
  | nil => cases hm
  | cons x xs ih =>
      obtain ⟨hx, hxs⟩ := List.nodup_cons.mp h
      rcases List.mem_cons.mp hm with rfl | hm
      · have hall : xs.filter (fun r => r.1 != i) = xs := by
          rw [List.filter_eq_self]
          intro r hr
          simp only [bne_iff_ne, ne_eq]
          rintro rfl
          exact hx (List.mem_map.mpr ⟨r, hr, rfl⟩)
        simp [hall]
      · have hne : x.1 ≠ i := by
          rintro rfl
          exact hx (List.mem_map.mpr ⟨_, hm, rfl⟩)
        rw [List.filter_cons_of_pos (by simpa using hne)]
        exact ((ih hxs hm).cons x).trans (.swap ..)

theorem lookup_pending {xs : List (Nat × Source α ε)} (h : (xs.map (·.1)).Nodup)
    (hm : (i, f) ∈ xs) : (xs.map fun r => (r.1, r.2.name)).lookup i = some f.name := by
  induction xs with
  | nil => cases hm
  | cons x xs ih =>
      obtain ⟨hx, hxs⟩ := List.nodup_cons.mp h
      rcases List.mem_cons.mp hm with rfl | hm
      · simp
      · have hne : i ≠ x.1 := by
          rintro rfl
          exact hx (List.mem_map.mpr ⟨_, hm, rfl⟩)
        rw [List.map_cons, List.lookup_cons, beq_false_of_ne hne]
        exact ih hxs hm

theorem enter {a : α} (h : Tally fetches joined s) (hn : (fetches.map (·.name)).Nodup)
    (hm : (i, f) ∈ s.running) (hv : f.ending = .value a) :
    Tally fetches (f :: joined) { s with
      running := s.running.filter fun r => r.1 != i
      pending := s.pending.filter fun q => q.1 != i
      values := s.values.insert f.name a } := by
  have hperm := perm_cons_filter h.numbers hm
  exact {
    gathers := h.gathers.insert hn (hperm.map Prod.snd) hv
    numbers := (List.nodup_cons.mp ((hperm.map Prod.fst).nodup_iff.mp h.numbers)).2
    pending := by simp [h.pending, List.filter_map, Function.comp_def] }

theorem join (h : Tally fetches joined s) (hn : (fetches.map (·.name)).Nodup)
    (hm : (i, f) ∈ s.running) (c : Circumstances) : Joined fetches joined s f (s.join c i f) := by
  have hname : (s.pending.lookup i).getD "" = f.name := by
    rw [h.pending, lookup_pending h.numbers hm]
    rfl
  unfold State.join
  rw [hname]
  cases hv : f.ending with
  | value a => exact .entered rfl (List.filter_subset_self ..) (h.enter hn hm hv)
  | error e => exact .failed (by simp [Source.failure?, hv]) rfl rfl
  | crash => exact .failed (by simp [Source.failure?, hv]) rfl rfl

end Tally

/-! ## The books of a run -/

/-- What a run knows of its fetches: these have been joined, and the others are still running. -/
structure Books (c : Circumstances) (fetches joined : List (Source α ε)) (s : State α ε) :
    Prop where
  split : (joined ++ s.running.map (·.2)).Perm fetches
  numbers : (s.running.map (·.1)).Nodup
  pending : s.pending = s.running.map fun r => (r.1, r.2.name)
  values : s.values.Collects joined
  ended : ∀ f ∈ joined, f.failure? = none ∧ ∃ t ≤ s.elapsed, endTime? c f = some t
  ahead : ∀ r ∈ s.running, ∀ t, endTime? c r.2 = some t → s.elapsed ≤ t
  calm : ∀ t, c.interruptAt = some t → s.elapsed ≤ t
  timely : s.elapsed ≤ c.deadline
  last : s.running = [] → joined = [] ∧ s.elapsed = 0 ∨ ∃ f ∈ joined, endTime? c f = some s.elapsed

namespace Books

variable {fetches joined : List (Source α ε)} {r q : Except (Failure ε) (Outcome α)}

theorem tally (h : Books c fetches joined s) : Tally fetches joined s :=
  { gathers := ⟨h.split, h.values, fun f hf => Source.failure?_eq_none_iff.mp (h.ended f hf).1⟩
    numbers := h.numbers
    pending := h.pending }

theorem initial (c : Circumstances) (fetches : List (Source α ε)) (cancelled : Cancelled) :
    Books c fetches [] (State.initial fetches cancelled) :=
  have h := Tally.initial fetches cancelled
  { split := h.gathers.split
    numbers := h.numbers
    pending := h.pending
    values := h.gathers.collects
    ended := by simp
    ahead := fun _ _ _ _ => Nat.zero_le _
    calm := fun _ _ => Nat.zero_le _
    timely := Nat.zero_le _
    last := fun _ => Or.inl ⟨rfl, rfl⟩ }

/-- Nothing can have ended a run before the time that its books have reached. -/
theorem le_of_ends (h : Books c fetches joined s) (hr : Ends c fetches t r) : s.elapsed ≤ t := by
  cases hr with
  | interrupted hi => exact h.calm t hi
  | failed hf ht hx =>
      rcases h.tally.mem_iff.mp hf with hj | ⟨i, hi⟩
      · rw [(h.ended _ hj).1] at hx
        cases hx
      · exact h.ahead _ hi t ht
  | unavailable => exact h.timely
  | complete hall hlast _ =>
      have hends : ∀ f ∈ fetches, endTime? c f = some s.elapsed → s.elapsed ≤ t := by
        intro f hf ht
        obtain ⟨_, u, hu, hft⟩ := hall f hf
        rw [ht] at hft
        cases hft
        exact hu
      cases hrun : s.running with
      | cons r rest =>
          have hr : r ∈ s.running := by simp [hrun]
          obtain ⟨_, u, hu, hft⟩ := hall r.2 (h.tally.mem_iff.mpr (Or.inr ⟨r.1, hr⟩))
          exact Nat.le_trans (h.ahead r hr u hft) hu
      | nil =>
          rcases h.last hrun with ⟨_, hz⟩ | ⟨f, hf, ht⟩
          · omega
          · exact hends f (h.tally.mem_iff.mpr (Or.inl hf)) ht

/-- Time passes as long as it passes nothing that comes to the run. -/
theorem passTo (h : Books c fetches joined s) (hle : s.elapsed ≤ t) (hrun : s.running ≠ [])
    (hahead : ∀ r ∈ s.running, ∀ u, endTime? c r.2 = some u → t ≤ u)
    (hcalm : ∀ u, c.interruptAt = some u → t ≤ u) (htimely : t ≤ c.deadline) :
    Books c fetches joined (s.passTo c t) where
  split := h.split
  numbers := h.numbers
  pending := h.pending
  values := h.values
  ended f hf := by
    obtain ⟨hx, u, hu, ht⟩ := h.ended f hf
    exact ⟨hx, u, Nat.le_trans hu hle, ht⟩
  ahead := hahead
  calm := hcalm
  timely := htimely
  last hr := absurd hr hrun

theorem ends_unavailable (h : Books c fetches joined s) (hn : (fetches.map (·.name)).Nodup)
    (hd : ∀ f ∈ fetches, endTime? c f ≠ some c.deadline) (ht : c.deadline ≤ s.elapsed) :
    Ends c fetches s.elapsed (.ok (.unavailable (inOrder (s.pending.map (·.2))))) := by
  have he : s.elapsed = c.deadline := Nat.le_antisymm h.timely ht
  rw [he]
  refine .unavailable (h.tally.rising_pending hn) fun n => ?_
  rw [mem_inOrder, h.tally.pending_names, List.map_map, List.mem_map]
  constructor
  · rintro ⟨⟨i, f⟩, hf, rfl⟩
    refine ⟨f, h.tally.mem_iff.mpr (Or.inr ⟨i, hf⟩), rfl, ?_⟩
    rintro ⟨u, hu, hft⟩
    have := h.ahead _ hf u hft
    omega
  · rintro ⟨f, hf, rfl, hnot⟩
    rcases h.tally.mem_iff.mp hf with hj | ⟨i, hi⟩
    · -- A fetch that was joined ended by now, and not just now.
      obtain ⟨_, u, hu, hft⟩ := h.ended f hj
      have hne : u ≠ c.deadline := by
        rintro rfl
        exact hd f hf hft
      exact absurd ⟨u, by omega, hft⟩ hnot
    · exact ⟨_, hi, rfl⟩

theorem ends_complete (h : Books c fetches joined s)
    (hcalm : ∀ t, c.interruptAt = some t → s.elapsed < t) (hrun : s.running = []) :
    Ends c fetches s.elapsed (.ok (.complete s.values)) := by
  have hmem : ∀ f, f ∈ joined ↔ f ∈ fetches := by
    intro f
    rw [h.tally.mem_iff, hrun]
    simp
  refine .complete (fun f hf => h.ended f ((hmem f).mpr hf)) ?_ (h.values.of_members hmem)
  rcases h.last hrun with ⟨hj, hz⟩ | ⟨f, hf, ht⟩
  · refine Or.inr ⟨?_, hz, fun hi => ?_⟩
    · exact List.eq_nil_iff_forall_not_mem.mpr fun f hf => by simpa [hj] using (hmem f).mpr hf
    · have := hcalm 0 hi
      omega
  · exact Or.inl ⟨f, (hmem f).mp hf, ht⟩

/-- A fetch that ends now is entered in the books, or it ends the run with its failure. -/
theorem join (h : Books c fetches joined s) (hn : (fetches.map (·.name)).Nodup)
    (hm : (i, f) ∈ s.running) (ht : endTime? c f = some s.elapsed) :
    (∃ s', s.join c i f = .goOn s' ∧ Books c fetches (f :: joined) s') ∨
      ∃ x s', s.join c i f = .stop (.answered (.error x)) s' ∧ s'.elapsed = s.elapsed ∧
        Ends c fetches s.elapsed (.error x) := by
  generalize hmove : s.join c i f = m
  cases hmove ▸ h.tally.join hn hm c with
  | @entered s' he hr ht' =>
      refine Or.inl ⟨s', rfl, ?_⟩
      exact {
        split := ht'.gathers.split
        numbers := ht'.numbers
        pending := ht'.pending
        values := ht'.gathers.collects
        ended := by
          intro g hg
          refine ⟨Source.failure?_eq_none_iff.mpr (ht'.gathers.ended g hg), ?_⟩
          rw [he]
          rcases List.mem_cons.mp hg with rfl | hg
          · exact ⟨s.elapsed, Nat.le_refl _, ht⟩
          · exact (h.ended g hg).2
        ahead := fun r hr' => he ▸ h.ahead r (hr hr')
        calm := he ▸ h.calm
        timely := he ▸ h.timely
        last := fun _ => Or.inr ⟨f, List.mem_cons_self, he ▸ ht⟩ }
  | failed hx he _ =>
      exact Or.inr ⟨_, _, rfl, he, .failed (h.tally.mem_iff.mpr (Or.inr ⟨i, hm⟩)) ht hx⟩

end Books

/-! ## Whole runs -/

section Runs

variable {fetches joined gs : List (Source α ε)}

/-- A turn keeps the books, or it ends the run with what comes first. -/
theorem Books.turn {m : Move α ε} (h : Books c fetches joined s)
    (hn : (fetches.map (·.name)).Nodup) (hd : ∀ f ∈ fetches, endTime? c f ≠ some c.deadline)
    (hm : Turn c s m) :
    (∃ s' joined', m = .goOn s' ∧ Books c fetches joined' s') ∨
      ∃ r s', m = .stop (.answered r) s' ∧ First c fetches s'.elapsed r := by
  cases hm with
  | late ht => exact Or.inr ⟨_, _, rfl, h.ends_unavailable hn hd ht, h.le_of_ends⟩
  | interrupted _ hi hle =>
      have he := Nat.le_antisymm (h.calm _ hi) hle
      exact Or.inr ⟨_, _, rfl, he ▸ .interrupted hi, h.le_of_ends⟩
  | complete _ hcalm hrun => exact Or.inr ⟨_, _, rfl, h.ends_complete hcalm hrun, h.le_of_ends⟩
  | @joins t i f hfirst hle hcalm =>
      obtain ⟨ht, hleast⟩ := earliest?_eq_some hfirst
      have hmem := mem_of_earliest? hfirst
      have hmax : max t s.elapsed = t := Nat.max_eq_left (h.ahead _ hmem t ht)
      rw [hmax] at hle hcalm ⊢
      have h' : Books c fetches joined (s.passTo c t) :=
        h.passTo (h.ahead _ hmem t ht) (List.ne_nil_of_mem hmem) hleast
          (fun u hu => Nat.le_of_lt (hcalm u hu)) hle
      rcases h'.join hn hmem ht with ⟨s', hs', hb⟩ | ⟨x, s', hs', he, hends⟩
      · exact Or.inl ⟨s', _, hs', hb⟩
      · exact Or.inr ⟨_, s', hs', he ▸ ⟨hends, h'.le_of_ends⟩⟩
  | @stops t hrun hi hlt hle hquiet =>
      have hahead := le_of_quiet hlt hquiet
      have h' : Books c fetches joined (s.passTo c t) := by
        refine h.passTo (Nat.le_of_lt hlt) hrun hahead (fun u hu => ?_) hle
        rw [hi] at hu
        cases hu
        exact Nat.le_refl t
      exact Or.inr ⟨_, _, rfl, .interrupted hi, h'.le_of_ends⟩
  | @waits limit hrun hlt hle hcalm hquiet =>
      have hahead := le_of_quiet hlt fun u i f hf => Nat.le_of_lt (hquiet u i f hf)
      exact Or.inl ⟨_, joined, rfl, h.passTo (Nat.le_of_lt hlt) hrun hahead
        (fun u hu => Nat.le_of_lt (hcalm u hu)) hle⟩

/-- A run that nobody drops ends with what comes first. -/
theorem Books.finish (hdrop : c.dropAt = none) (h : Books c fetches joined s)
    (hn : (fetches.map (·.name)).Nodup) (hd : ∀ f ∈ fetches, endTime? c f ≠ some c.deadline)
    (p : Pace) :
    ∃ r, (finish p c s).1 = .answered r ∧ First c fetches (finish p c s).2.elapsed r := by
  induction s using Parallel.finish.induct p c generalizing joined with
  | case1 s s' hs ih =>
      rcases h.turn hn hd (hs ▸ next_turn hdrop p s) with ⟨t, joined', ht, hb⟩ | ⟨_, _, ht, _⟩
      · cases ht
        rw [Parallel.finish, hs]
        exact ih hb
      · cases ht
  | case2 s v s' hs =>
      rcases h.turn hn hd (hs ▸ next_turn hdrop p s) with ⟨_, _, ht, _⟩ | ⟨r, t, ht, hf⟩
      · cases ht
      · cases ht
        rw [Parallel.finish, hs]
        exact ⟨r, rfl, hf⟩

theorem first_runAt (hdrop : c.dropAt = none) (hn : (fetches.map (·.name)).Nodup)
    (hd : ∀ f ∈ fetches, endTime? c f ≠ some c.deadline) (p : Pace) (cancelled : Cancelled) :
    ∃ r, (runAt p c fetches cancelled).verdict = .answered r ∧
      First c fetches (runAt p c fetches cancelled).elapsed r :=
  (Books.initial c fetches _).finish hdrop hn hd p

end Runs

end Parallel

/-! ## Runs as they are asked for -/

theorem firstRepeated?_eq_none_iff {seen names : List String} :
    firstRepeated? seen names = none ↔ names.Nodup ∧ ∀ n ∈ names, n ∉ seen := by
  induction names generalizing seen with
  | nil => simp [firstRepeated?]
  | cons n names ih =>
      unfold firstRepeated?
      split
      · rename_i h
        simp [h]
      · rename_i h
        rw [ih]
        simp only [List.nodup_cons, List.mem_cons, not_or]
        constructor
        · rintro ⟨hn, hall⟩
          refine ⟨⟨fun hmem => (hall n hmem).1 rfl, hn⟩, ?_⟩
          rintro m (rfl | hm)
          · exact h
          · exact (hall m hm).2
        · rintro ⟨⟨hnew, hn⟩, hall⟩
          refine ⟨hn, fun m hm => ⟨?_, hall m (Or.inr hm)⟩⟩
          rintro rfl
          exact hnew hm

section Names

variable {fetches : List (Source α ε)} (hn : (fetches.map (·.name)).Nodup) (c : Circumstances)
  (cancelled : Cancelled)
include hn

theorem aggregate_sequential :
    aggregate .sequential c fetches cancelled = Sequential.run c fetches cancelled := by
  rw [aggregate, firstRepeated?_eq_none_iff.mpr ⟨hn, by simp⟩]

theorem aggregate_parallel :
    aggregate .parallel c fetches cancelled = Parallel.runAt .standard c fetches cancelled := by
  rw [aggregate, firstRepeated?_eq_none_iff.mpr ⟨hn, by simp⟩]
  rfl

end Names

namespace Parallel

/-- A run of fetches of distinct names, all of whose moments are distinct, ends with what comes
first: its interruption, the first failure, the last value, or its deadline. It does so at that
moment, in whatever order the fetches were submitted and however long its attempts may last. -/
theorem aggregate_first {c : Circumstances} {fetches : List (Source α ε)} (hdrop : c.dropAt = none)
    (hdeadline : 0 < c.deadline) (hnames : (fetches.map (·.name)).Nodup)
    (hdistinct : (instants c fetches).Nodup) (cancelled : Cancelled) :
    ∃ t r, (aggregate .parallel c fetches cancelled).verdict = .answered r ∧
      (aggregate .parallel c fetches cancelled).elapsed = t ∧ First c fetches t r ∧
      (∀ gs, gs.Perm fetches → ∀ others,
        (aggregate .parallel c gs others).verdict = .answered r ∧
          (aggregate .parallel c gs others).elapsed = t) ∧
      ∀ p gs, gs.Perm fetches → ∀ others,
        (runAt p c gs others).verdict = .answered r ∧ (runAt p c gs others).elapsed = t := by
  have hends : ∀ f ∈ fetches, endTime? c f ≠ some c.deadline := by
    intro f hf ht
    exact ne_deadline hdistinct hf ht rfl
  obtain ⟨r, hr, hfirst⟩ := first_runAt hdrop hnames hends .standard cancelled
  have hruns : ∀ p gs, gs.Perm fetches → ∀ others,
      (runAt p c gs others).verdict = .answered r ∧
        (runAt p c gs others).elapsed = (runAt .standard c fetches cancelled).elapsed := by
    intro p gs hgs others
    obtain ⟨q, hq, hfirst'⟩ := first_runAt hdrop ((hgs.map (·.name)).nodup_iff.mpr hnames)
      (fun f hf => hends f (hgs.mem_iff.mp hf)) p others
    obtain ⟨ht, rfl⟩ := (hfirst'.of_members fun f => hgs.mem_iff).unique hdistinct hdeadline hfirst
    exact ⟨hq, ht⟩
  refine ⟨_, r, ?_, ?_, hfirst, fun gs hgs others => ?_, hruns⟩
  · rw [aggregate_parallel hnames]
    exact hr
  · rw [aggregate_parallel hnames]
  · rw [aggregate_parallel ((hgs.map (·.name)).nodup_iff.mpr hnames)]
    exact hruns .standard gs hgs others

/-- The second of three fetches fails at 120, before an interruption at 150 and a deadline at 200,
and while the third would go on for ever. -/
theorem failing_first :
    let c := Circumstances.under (.root 0) 0 200 (some 150) none
    let fetches : List (Source Nat String) :=
      [⟨"bundles", .after 90, .value 1⟩, ⟨"account", .after 120, .error "gone"⟩,
        ⟨"invoices", .never, .crash⟩]
    let r : Except (Failure String) (Outcome Nat) := .error (.source "account" "gone")
    c.dropAt = none ∧ 0 < c.deadline ∧ (fetches.map (·.name)).Nodup ∧ (instants c fetches).Nodup ∧
      (aggregate .parallel c fetches .none).verdict = .answered r ∧
      (aggregate .parallel c fetches .none).elapsed = 120 ∧ First c fetches 120 r ∧
      (∀ gs, gs.Perm fetches → ∀ others,
        (aggregate .parallel c gs others).verdict = .answered r ∧
          (aggregate .parallel c gs others).elapsed = 120) ∧
      ∀ p gs, gs.Perm fetches → ∀ others,
        (runAt p c gs others).verdict = .answered r ∧ (runAt p c gs others).elapsed = 120 := by
  intro c fetches r
  have hends : Ends c fetches 120 r :=
    .failed (f := ⟨"account", .after 120, .error "gone"⟩) (by simp [fetches]) rfl rfl
  obtain ⟨t, q, hv, ht, hfirst, hrest⟩ := aggregate_first (c := c) rfl (by decide)
    (show (fetches.map (·.name)).Nodup by decide) (by decide) .none
  have hle : t ≤ 120 := hfirst.least hends
  have heq : t = 120 := by
    cases hfirst.ends with
    | interrupted hi =>
        cases hi
        omega
    | failed hf hu hx =>
        simp only [fetches, List.mem_cons, List.not_mem_nil, or_false] at hf
        rcases hf with rfl | rfl | rfl
        · cases hx
        · exact (Option.some.inj hu).symm
        · cases hu
    | complete hall =>
        have hnone := (hall ⟨"account", .after 120, .error "gone"⟩ (by simp [fetches])).1
        cases hnone
    | unavailable => exact absurd hle (by decide)
  subst heq
  cases hends.unique (by decide) (by decide) hfirst.ends
  exact ⟨rfl, by decide, by decide, by decide, hv, ht, hfirst, hrest⟩

end Parallel

end Billing.Fetch
