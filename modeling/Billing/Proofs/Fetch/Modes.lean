import Mathlib
import Billing.Proofs.Fetch.Observations

/-!
# One after another and all at once

Where there is time for all fetches one after another, and one of them fails at most, it does not
matter in which mode they are made, nor in which order.
-/

namespace Billing.Fetch

open scoped List

variable {α ε : Type} {c : Circumstances} {fetches gs done rest : List (Source α ε)}
  {f g : Source α ε} {r q : Except (Failure ε) (Outcome α)} {x : Failure ε}

/-! ## What fetches come to -/

/-- What fetches come to if there is time enough: the failure of one of them, or all values. -/
inductive Settles (fetches : List (Source α ε)) : Except (Failure ε) (Outcome α) → Prop where
  | failed {f : Source α ε} {e : ε} (mem : f ∈ fetches) (error : f.ending = .error e) :
      Settles fetches (.error (.source f.name e))
  | complete {values : Values α} (all : ∀ f ∈ fetches, f.failure? = none)
      (collects : values.Collects fetches) : Settles fetches (.ok (.complete values))

/-- At most one of the fetches ends with an error. -/
def FailsOnce (fetches : List (Source α ε)) : Prop :=
  ∀ f ∈ fetches, ∀ g ∈ fetches, ∀ d e, f.ending = .error d → g.ending = .error e → f = g

theorem Settles.of_members (h : Settles fetches r) (hm : ∀ f, f ∈ fetches ↔ f ∈ gs) :
    Settles gs r := by
  cases h with
  | failed hf he => exact .failed ((hm _).mp hf) he
  | complete hall hv => exact .complete (fun f hf => hall f ((hm f).mpr hf)) (hv.of_members hm)

theorem Settles.unique (honce : FailsOnce fetches) (h : Settles fetches r)
    (k : Settles fetches q) : r = q := by
  have hnot : ∀ {f e}, f ∈ fetches → f.ending = .error e →
      ¬ ∀ f ∈ fetches, f.failure? = none := by
    intro f e hf he hall
    obtain ⟨a, ha⟩ := Source.failure?_eq_none_iff.mp (hall f hf)
    rw [he] at ha
    cases ha
  cases h with
  | failed hf he =>
      cases k with
      | failed hg hg' =>
          cases honce _ hf _ hg _ _ he hg'
          rw [he] at hg'
          cases hg'
          rfl
      | complete hall _ => exact absurd hall (hnot hf he)
  | complete hall hv =>
      cases k with
      | failed hg hg' => exact absurd hall (hnot hg hg')
      | complete _ hv' => rw [hv.eq hv' fun _ => Iff.rfl]

theorem exists_error (hx : f.failure? = some x) (hcrash : f.ending ≠ .crash) :
    ∃ e, f.ending = .error e ∧ x = .source f.name e := by
  cases hend : f.ending with
  | value a => simp [Source.failure?, hend] at hx
  | crash => exact absurd hend hcrash
  | error e => exact ⟨e, rfl, by simpa [Source.failure?, hend, eq_comm] using hx⟩

/-- A fetch takes less time than there is for all of them. -/
theorem delay_lt {delay : Source α ε → Nat} {limit : Nat}
    (htime : (fetches.map delay).sum < limit) (hf : f ∈ fetches) : delay f < limit := by
  have := List.le_sum_of_mem (List.mem_map.mpr ⟨f, hf, rfl⟩ : delay f ∈ fetches.map delay)
  omega

/-- How long fetches take in all, given how long each takes. -/
def Mode.span : Mode → List Nat → Nat
  | .sequential, times => times.sum
  | .parallel, times => times.foldr max 0

theorem Mode.le_span_parallel {times : List Nat} {d : Nat} (h : d ∈ times) :
    d ≤ Mode.parallel.span times := by
  show d ≤ times.foldr max 0
  induction h with
  | head => exact Nat.le_max_left ..
  | tail _ _ ih => exact Nat.le_trans ih (Nat.le_max_right ..)

theorem Mode.span_le_sum (mode : Mode) (times : List Nat) : mode.span times ≤ times.sum := by
  cases mode with
  | sequential => exact Nat.le_refl _
  | parallel =>
      show times.foldr max 0 ≤ times.sum
      induction times with
      | nil => exact Nat.le_refl 0
      | cons d times ih =>
          rw [List.foldr_cons, List.sum_cons]
          omega

/-! ## One after another -/

namespace Sequential

theorem fetch_of_delay {s : State α ε} {d : Nat} (rest : List (Source α ε))
    (hdrop : c.dropAt = none) (hcalm : c.interruptAt = none) (hf : f.trigger = .after d)
    (hd : s.elapsed + d ≤ c.deadline) :
    ∃ s' : State α ε, s.fetch c f rest = s'.record c f ∧ s'.elapsed = s.elapsed + d ∧
      s'.values = s.values ∧ s'.started = s.started ++ [(f.name, c.scope)] := by
  have hle : s.elapsed + d ≤ max s.elapsed c.deadline := by omega
  refine ⟨({ s with started := s.started ++ [(f.name, c.scope)] }).passTo c (s.elapsed + d), ?_,
    rfl, rfl, rfl⟩
  simp [State.fetch, State.endTime?, State.actAt, Circumstances.interruptedBy,
    Circumstances.droppedBefore, hdrop, hcalm, hf, hle]

theorem finish_settles (hdrop : c.dropAt = none) (hcalm : c.interruptAt = none)
    (hnames : (fetches.map (·.name)).Nodup) (delay : Source α ε → Nat) {s : State α ε}
    (h : s.values.Gathers fetches done rest)
    (hdelay : ∀ f ∈ rest, f.trigger = .after (delay f)) (hcrash : ∀ f ∈ rest, f.ending ≠ .crash)
    (htime : s.elapsed + (rest.map delay).sum < c.deadline) :
    ∃ r, (finish c rest s).1 = .answered r ∧ Settles fetches r := by
  induction rest generalizing done s with
  | nil =>
      refine ⟨_, rfl, .complete (fun f hf => ?_)
        (h.collects.of_members fun f => (h.all_made f).symm)⟩
      exact Source.failure?_eq_none_iff.mpr (h.ended f ((h.all_made f).mp hf))
  | cons f rest ih =>
      rw [List.map_cons, List.sum_cons] at htime
      obtain ⟨s', hs', he, hv, _⟩ := fetch_of_delay rest hdrop hcalm
        (hdelay f List.mem_cons_self) (by omega : s.elapsed + delay f ≤ c.deadline)
      unfold finish
      rw [hs']
      unfold State.record
      cases hend : f.ending with
      | crash => exact absurd hend (hcrash f List.mem_cons_self)
      | error e => exact ⟨_, rfl, .failed (h.mem_iff.mpr (Or.inr List.mem_cons_self)) hend⟩
      | value a =>
          exact ih (s := { s' with
              finished := s'.finished ++ [f.name], values := s'.values.insert f.name a })
            ((hv ▸ h).insert hnames (.refl _) hend)
            (fun g hg => hdelay g (List.mem_cons_of_mem f hg))
            (fun g hg => hcrash g (List.mem_cons_of_mem f hg)) (by simp only [he]; omega)

end Sequential

/-! ## All at once -/

namespace Parallel

theorem endTime?_of_delay {d : Nat} (hf : f.trigger = .after d) : endTime? c f = some d := by
  rw [endTime?, hf]

theorem endTime?_ne_deadline {d : Nat} (hf : f.trigger = .after d) (hd : d < c.deadline) :
    endTime? c f ≠ some c.deadline := by
  rw [endTime?_of_delay hf]
  rintro ⟨⟩
  exact Nat.lt_irrefl _ hd

theorem exists_collects (hnames : (fetches.map (·.name)).Nodup)
    (hall : ∀ f ∈ fetches, f.failure? = none) :
    ∃ values : Values α, values.Collects fetches := by
  induction fetches with
  | nil => exact ⟨[], .nil⟩
  | cons f fetches ih =>
      obtain ⟨hf, hnames⟩ := List.nodup_cons.mp hnames
      obtain ⟨values, hv⟩ := ih hnames fun g hg => hall g (List.mem_cons_of_mem f hg)
      obtain ⟨a, ha⟩ := Source.failure?_eq_none_iff.mp (hall f List.mem_cons_self)
      exact ⟨_, hv.insert ha fun g hg he => hf (List.mem_map.mpr ⟨g, hg, he⟩)⟩

theorem exists_last (hne : fetches ≠ []) (delay : Source α ε → Nat) :
    ∃ f ∈ fetches, ∀ g ∈ fetches, delay g ≤ delay f := by
  induction fetches with
  | nil => exact absurd rfl hne
  | cons f fetches ih =>
      cases fetches with
      | nil => exact ⟨f, by simp⟩
      | cons g gs =>
          obtain ⟨h, hh, hmax⟩ := ih (by simp)
          rcases Nat.le_total (delay f) (delay h) with hle | hle
          · refine ⟨h, List.mem_cons_of_mem f hh, ?_⟩
            simpa [hle] using hmax
          · refine ⟨f, List.mem_cons_self, ?_⟩
            simpa using fun k hk => Nat.le_trans (hmax k hk) hle

/-- Where all fetches end before the deadline, something ends the run before it. -/
theorem exists_ends (hcalm : c.interruptAt = none) (delay : Source α ε → Nat)
    (hdelay : ∀ f ∈ fetches, f.trigger = .after (delay f))
    (htime : ∀ f ∈ fetches, delay f < c.deadline) (hdeadline : 0 < c.deadline)
    (hnames : (fetches.map (·.name)).Nodup) : ∃ t < c.deadline, ∃ r, Ends c fetches t r := by
  have hend : ∀ f ∈ fetches, endTime? c f = some (delay f) :=
    fun f hf => endTime?_of_delay (hdelay f hf)
  by_cases hall : ∀ f ∈ fetches, f.failure? = none
  · obtain ⟨values, hv⟩ := exists_collects hnames hall
    by_cases hne : fetches = []
    · refine ⟨0, hdeadline, _, .complete ?_ (Or.inr ⟨hne, rfl, by simp [hcalm]⟩) hv⟩
      simp [hne]
    · obtain ⟨f, hf, hmax⟩ := exists_last hne delay
      refine ⟨delay f, htime f hf, _, .complete ?_ (Or.inl ⟨f, hf, hend f hf⟩) hv⟩
      intro g hg
      exact ⟨hall g hg, delay g, hmax g hg, hend g hg⟩
  · obtain ⟨f, hf, hx⟩ : ∃ f ∈ fetches, f.failure? ≠ none := by simpa using hall
    obtain ⟨x, hx⟩ := Option.ne_none_iff_exists'.mp hx
    exact ⟨delay f, htime f hf, _, .failed hf (hend f hf) hx⟩

theorem First.settles {t : Nat} (h : First c fetches t r) (hcalm : c.interruptAt = none)
    (hcrash : ∀ f ∈ fetches, f.ending ≠ .crash)
    (hearly : ∃ t < c.deadline, ∃ r : Except (Failure ε) (Outcome α), Ends c fetches t r) :
    Settles fetches r := by
  cases h.ends with
  | interrupted hi =>
      rw [hcalm] at hi
      cases hi
  | @failed f t x hf _ hx =>
      obtain ⟨e, he, rfl⟩ := exists_error hx (hcrash f hf)
      exact .failed hf he
  | complete hall _ hv => exact .complete (fun f hf => (hall f hf).1) hv
  | unavailable =>
      obtain ⟨u, hu, q, hq⟩ := hearly
      have := h.least hq
      omega

end Parallel

/-! ## Both modes -/

section Settled

variable (hdrop : c.dropAt = none) (hcalm : c.interruptAt = none)
  (hnames : (fetches.map (·.name)).Nodup) (hcrash : ∀ f ∈ fetches, f.ending ≠ .crash)
include hdrop hcalm hnames hcrash

/-- Fetches that have time enough in the mode in which they are made are settled. -/
theorem aggregate_settles (mode : Mode) (delay : Source α ε → Nat)
    (hdelay : ∀ f ∈ fetches, f.trigger = .after (delay f))
    (htime : mode.span (fetches.map delay) < c.deadline) (cancelled : Cancelled) :
    ∃ r, (aggregate mode c fetches cancelled).verdict = .answered r ∧ Settles fetches r := by
  cases mode with
  | sequential =>
      rw [aggregate_sequential hnames]
      refine Sequential.finish_settles hdrop hcalm hnames delay (.start fetches) hdelay hcrash ?_
      rw [show (Sequential.State.initial (c.cancelledAt 0 cancelled) : Sequential.State α ε).elapsed
        = 0 from rfl, Nat.zero_add]
      exact htime
  | parallel =>
      have hsingle : ∀ f ∈ fetches, delay f < c.deadline := fun f hf =>
        Nat.lt_of_le_of_lt (Mode.le_span_parallel (List.mem_map.mpr ⟨f, hf, rfl⟩)) htime
      obtain ⟨r, hr, hfirst⟩ := Parallel.first_runAt hdrop hnames
        (fun f hf => Parallel.endTime?_ne_deadline (hdelay f hf) (hsingle f hf)) .standard cancelled
      refine ⟨r, ?_, hfirst.settles hcalm hcrash ?_⟩
      · rw [aggregate_parallel hnames]
        exact hr
      · exact Parallel.exists_ends hcalm delay hdelay hsingle (by omega) hnames

/-- Whatever is seen first, a run that ends before its deadline has settled its fetches. -/
theorem Concludes.settles {mode : Mode} {v : Verdict α ε} {values : Values α} {time : Nat}
    (h : Concludes c fetches mode v values time) (htime : time < c.deadline) :
    ∃ r, v = .answered r ∧ Settles fetches r := by
  cases h with
  | complete hcollects hall =>
      refine ⟨_, rfl, .complete (fun f hf => ?_) hcollects⟩
      obtain ⟨a, ha⟩ := hall f hf
      obtain ⟨g, hg, hname, hend⟩ := hcollects.mem_iff.mp ha
      rw [← List.inj_on_of_nodup_map hnames hg hf hname]
      exact Source.failure?_eq_none_iff.mpr ⟨a, hend⟩
  | late _ _ hdeadline => exact absurd hdeadline (Nat.not_le.mpr htime)
  | interrupted hi =>
      obtain ⟨t, ht, _⟩ := Circumstances.interruptedBy_iff.mp hi
      rw [hcalm] at ht
      cases ht
  | failed hf _ hx =>
      obtain ⟨e, he, rfl⟩ := exists_error hx (hcrash _ hf)
      exact ⟨_, rfl, .failed hf he⟩
  | crashed hf _ hend => exact absurd hend (hcrash _ hf)
  | dropped _ _ hd =>
      rw [hdrop] at hd
      cases hd

end Settled

/-- Fetches of distinct names that have time enough one after another, of which one fails at most
and none crashes, come to the same in both modes, in whatever order they are submitted: to the
failure of the one, or to all values. -/
theorem modes_agree (hdrop : c.dropAt = none) (hcalm : c.interruptAt = none)
    (hnames : (fetches.map (·.name)).Nodup) (delay : Source α ε → Nat)
    (hdelay : ∀ f ∈ fetches, f.trigger = .after (delay f))
    (htime : (fetches.map delay).sum < c.deadline) (honce : FailsOnce fetches)
    (hcrash : ∀ f ∈ fetches, f.ending ≠ .crash) (hg : gs ~ fetches) {hs : List (Source α ε)}
    (hh : hs ~ fetches) (cancelled others : Cancelled) :
    ∃ r, (aggregate .sequential c gs cancelled).verdict = .answered r ∧
      (aggregate .parallel c hs others).verdict = .answered r ∧ Settles fetches r := by
  have hsettles : ∀ (mode : Mode) {xs : List (Source α ε)} (which : Cancelled), xs ~ fetches →
      ∃ r, (aggregate mode c xs which).verdict = .answered r ∧ Settles fetches r := by
    intro mode xs which hx
    have htime : mode.span (xs.map delay) < c.deadline := by
      have hle := mode.span_le_sum (xs.map delay)
      rw [(hx.map delay).sum_eq] at hle
      exact Nat.lt_of_le_of_lt hle htime
    obtain ⟨r, hr, hset⟩ := aggregate_settles hdrop hcalm ((hx.map _).nodup_iff.mpr hnames)
      (fun f hf => hcrash f (hx.mem_iff.mp hf)) mode delay
      (fun f hf => hdelay f (hx.mem_iff.mp hf)) htime which
    exact ⟨r, hr, hset.of_members fun f => hx.mem_iff⟩
  obtain ⟨r, hr, hset⟩ := hsettles .sequential cancelled hg
  obtain ⟨q, hq, hset'⟩ := hsettles .parallel others hh
  cases hset.unique honce hset'
  exact ⟨r, hr, hq, hset⟩

/-- Three fetches, of which two end at the same moment when they are made at once and the last one
submitted fails. -/
theorem modes_agree_failing :
    let c := Circumstances.under (.root 0) 0 100 none none
    let fetches : List (Source Nat String) :=
      [⟨"bundles", .after 30, .value 1⟩, ⟨"account", .after 30, .value 2⟩,
        ⟨"invoices", .after 20, .error "gone"⟩]
    let delay := fun f : Source Nat String => if f.name = "invoices" then 20 else 30
    c.dropAt = none ∧ c.interruptAt = none ∧ (fetches.map (·.name)).Nodup ∧
      (∀ f ∈ fetches, f.trigger = .after (delay f)) ∧ (fetches.map delay).sum < c.deadline ∧
      FailsOnce fetches ∧ (∀ f ∈ fetches, f.ending ≠ .crash) ∧
      ∃ r, (aggregate .sequential c fetches .none).verdict = .answered r ∧
        (aggregate .parallel c fetches.reverse .none).verdict = .answered r ∧
        Settles fetches r := by
  intro c fetches delay
  have honce : FailsOnce fetches := by
    unfold FailsOnce
    simp [fetches]
  refine ⟨rfl, rfl, by decide, by decide, by decide, honce, by decide, ?_⟩
  exact modes_agree rfl rfl (by decide) delay (by decide) (by decide) honce (by decide) (.refl _)
    (List.reverse_perm _) .none .none

end Billing.Fetch
