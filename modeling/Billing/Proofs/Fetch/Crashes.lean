import Billing.Proofs.Fetch.Modes
import Billing.Proofs.Fetch.Observations

/-!
# Fetches that crash

All at once, a fetch that crashes fails the run by its name. One after another, nothing stands
between the fetch and the caller, who gets the crash itself.
-/

namespace Billing.Fetch

variable {α ε : Type} {c : Circumstances} {fetches front rest : List (Source α ε)} {f : Source α ε}

/-- Of these fetches one crashes, and all others end with a value. -/
structure CrashesOnce (fetches : List (Source α ε)) (f : Source α ε) : Prop where
  mem : f ∈ fetches
  crash : f.ending = .crash
  others : ∀ g ∈ fetches, g ≠ f → ∃ a, g.ending = .value a

theorem CrashesOnce.failure? (h : CrashesOnce fetches f) : f.failure? = some (.crashed f.name) := by
  simp [Source.failure?, h.crash]

theorem CrashesOnce.eq_of_failure {g : Source α ε} {x : Failure ε} (h : CrashesOnce fetches f)
    (hg : g ∈ fetches) (hx : g.failure? = some x) : g = f := by
  by_contra hne
  have hnone := Source.failure?_eq_none_iff.mpr (h.others g hg hne)
  rw [hx] at hnone
  cases hnone

/-! ## One after another -/

namespace Sequential

/-- The fetches in front end with values, in time. -/
theorem finish_append (hdrop : c.dropAt = none) (hcalm : c.interruptAt = none)
    (delay : Source α ε → Nat) (rest : List (Source α ε)) {s : State α ε}
    (hdelay : ∀ g ∈ front, g.trigger = .after (delay g))
    (hvalue : ∀ g ∈ front, ∃ a, g.ending = .value a)
    (htime : s.elapsed + (front.map delay).sum ≤ c.deadline) :
    ∃ s', finish c (front ++ rest) s = finish c rest s' ∧
      s'.elapsed = s.elapsed + (front.map delay).sum ∧
      s'.started = s.started ++ front.map fun g => (g.name, c.scope) := by
  induction front generalizing s with
  | nil => exact ⟨s, rfl, by simp, by simp⟩
  | cons g front ih =>
      rw [List.map_cons, List.sum_cons] at htime
      obtain ⟨s₁, hs₁, he, _, hl⟩ := fetch_of_delay (front ++ rest) hdrop hcalm
        (hdelay g List.mem_cons_self) (by omega : s.elapsed + delay g ≤ c.deadline)
      obtain ⟨a, ha⟩ := hvalue g List.mem_cons_self
      obtain ⟨s', hs', he', hl'⟩ := ih (s := { s₁ with
          finished := s₁.finished ++ [g.name], values := s₁.values.insert g.name a })
        (fun h hh => hdelay h (List.mem_cons_of_mem g hh))
        (fun h hh => hvalue h (List.mem_cons_of_mem g hh)) (by simp only [he]; omega)
      refine ⟨s', ?_, ?_, ?_⟩
      · rw [List.cons_append, finish, hs₁, State.record, ha]
        exact hs'
      · rw [he', he, List.map_cons, List.sum_cons, Nat.add_assoc]
      · rw [hl', hl, List.map_cons, List.append_assoc]
        rfl

/-- Behind the fetches in front the crash reaches the caller. -/
theorem run_of_crash (hdrop : c.dropAt = none) (hcalm : c.interruptAt = none)
    (hnames : ((front ++ f :: rest).map (·.name)).Nodup) (delay : Source α ε → Nat)
    (hdelay : ∀ g ∈ front ++ f :: rest, g.trigger = .after (delay g))
    (htime : ((front ++ f :: rest).map delay).sum < c.deadline)
    (hf : CrashesOnce (front ++ f :: rest) f) (cancelled : Cancelled) :
    (run c (front ++ f :: rest) cancelled).verdict = .crashed ∧
      (run c (front ++ f :: rest) cancelled).elapsed = ((front ++ [f]).map delay).sum ∧
      (run c (front ++ f :: rest) cancelled).started =
        (front ++ [f]).map fun g => (g.name, c.scope) := by
  have hne : ∀ g ∈ front, g ≠ f := by
    rintro g hg rfl
    rw [List.map_append, List.nodup_append] at hnames
    exact hnames.2.2 _ (List.mem_map.mpr ⟨g, hg, rfl⟩) _ (by simp) rfl
  have hle : (front.map delay).sum + delay f ≤ c.deadline := by
    rw [List.map_append, List.sum_append, List.map_cons, List.sum_cons] at htime
    omega
  -- The run comes to the fetch, and the fetch to its end.
  obtain ⟨s, hs, he, hl⟩ := finish_append hdrop hcalm delay (f :: rest)
    (s := .initial (c.cancelledAt 0 cancelled))
    (fun g hg => hdelay g (List.mem_append_left _ hg))
    (fun g hg => hf.others g (List.mem_append_left _ hg) (hne g hg))
    (by simp only [State.initial]; omega)
  simp only [State.initial, Nat.zero_add, List.nil_append] at he hl
  obtain ⟨s', hs', he', _, hl'⟩ := fetch_of_delay rest hdrop hcalm (hdelay f hf.mem)
    (by omega : s.elapsed + delay f ≤ c.deadline)
  have hfinish : finish c (front ++ f :: rest) (.initial (c.cancelledAt 0 cancelled)) =
      (.crashed, { s' with finished := s'.finished ++ [f.name] }.closed c) := by
    rw [hs, finish, hs', State.record, hf.crash]
    rfl
  refine ⟨?_, ?_, ?_⟩
  · rw [run, hfinish]
  · rw [run, hfinish]
    simp [State.closed, he', he]
  · rw [run, hfinish]
    simp [State.closed, hl', hl]

end Sequential

/-! ## All at once -/

namespace Parallel

theorem First.of_crash {t : Nat} {r : Except (Failure ε) (Outcome α)}
    (h : First c fetches t r) (hf : CrashesOnce fetches f) (hcalm : c.interruptAt = none) {d : Nat}
    (hd : endTime? c f = some d) (htime : d < c.deadline) : t = d ∧ r = .error (.crashed f.name) := by
  have hle : t ≤ d := h.least (.failed hf.mem hd hf.failure?)
  cases h.ends with
  | interrupted hi =>
      rw [hcalm] at hi
      cases hi
  | failed hg ht hx =>
      cases hf.eq_of_failure hg hx
      rw [hd] at ht
      rw [hf.failure?] at hx
      cases ht
      cases hx
      exact ⟨rfl, rfl⟩
  | complete hall _ _ =>
      have hnone := (hall f hf.mem).1
      rw [hf.failure?] at hnone
      cases hnone
  | unavailable => omega

theorem runAt_of_crash (hdrop : c.dropAt = none) (hcalm : c.interruptAt = none)
    (hnames : (fetches.map (·.name)).Nodup) (delay : Source α ε → Nat)
    (hdelay : ∀ g ∈ fetches, g.trigger = .after (delay g))
    (htime : ∀ g ∈ fetches, delay g < c.deadline) (hf : CrashesOnce fetches f) (p : Pace)
    (cancelled : Cancelled) :
    (runAt p c fetches cancelled).verdict = .answered (.error (.crashed f.name)) ∧
      (runAt p c fetches cancelled).elapsed = delay f := by
  obtain ⟨r, hr, hfirst⟩ := first_runAt hdrop hnames
    (fun g hg => endTime?_ne_deadline (hdelay g hg) (htime g hg)) p cancelled
  obtain ⟨ht, rfl⟩ := hfirst.of_crash hf hcalm (endTime?_of_delay (hdelay f hf.mem))
    (htime f hf.mem)
  exact ⟨hr, ht⟩

end Parallel

/-- In whatever order things are seen, no crash reaches the caller of a run that makes its fetches
at once. -/
theorem Observed.ne_crashed {cancelled : Cancelled} {v : Verdict α ε} {values : Values α} {time : Nat}
    (h : Observed c fetches cancelled .parallel v values time)
    (hn : (fetches.map (·.name)).Nodup) : v ≠ .crashed := by
  rintro rfl
  cases h.concludes hn

/-! ## Both modes -/

/-- What becomes of a run of which one fetch crashes, `delay` being how long each takes. -/
structure Crashes (c : Circumstances) (fetches : List (Source α ε)) (f : Source α ε)
    (delay : Source α ε → Nat) (cancelled : Cancelled) : Prop where
  /-- At once, the run fails at that moment by the name of the fetch. -/
  parallel : (aggregate .parallel c fetches cancelled).verdict =
    .answered (.error (.crashed f.name))
  parallel_elapsed : (aggregate .parallel c fetches cancelled).elapsed = delay f
  /-- One after another, the crash reaches the caller, with nothing started behind it. -/
  sequential : (aggregate .sequential c fetches cancelled).verdict = .crashed
  sequential_started : ∀ front rest, fetches = front ++ f :: rest →
    (aggregate .sequential c fetches cancelled).elapsed = ((front ++ [f]).map delay).sum ∧
      (aggregate .sequential c fetches cancelled).started =
        (front ++ [f]).map fun g => (g.name, c.scope)
  /-- At once, it does not reach him in whatever order things are seen. -/
  contained : ∀ v values time, Observed c fetches cancelled .parallel v values time → v ≠ .crashed

/-- Of fetches of distinct names that have time enough one after another, one crashes and all others
end with a value. Made at once, they fail by the name of the one that crashes. Made one after
another, its crash reaches the caller: the run gives no answer. -/
theorem crash_by_mode (hdrop : c.dropAt = none) (hcalm : c.interruptAt = none)
    (hnames : (fetches.map (·.name)).Nodup) (delay : Source α ε → Nat)
    (hdelay : ∀ g ∈ fetches, g.trigger = .after (delay g))
    (htime : (fetches.map delay).sum < c.deadline) (hf : CrashesOnce fetches f)
    (cancelled : Cancelled) : Crashes c fetches f delay cancelled := by
  obtain ⟨hparallel, helapsed⟩ :=
    Parallel.runAt_of_crash hdrop hcalm hnames delay hdelay (fun g hg => delay_lt htime hg) hf
      .standard cancelled
  have hsequential : ∀ front rest, fetches = front ++ f :: rest →
      (Sequential.run c fetches cancelled).verdict = .crashed ∧
        (Sequential.run c fetches cancelled).elapsed = ((front ++ [f]).map delay).sum ∧
        (Sequential.run c fetches cancelled).started =
          (front ++ [f]).map fun g => (g.name, c.scope) := by
    rintro front rest rfl
    exact Sequential.run_of_crash hdrop hcalm hnames delay hdelay htime hf cancelled
  obtain ⟨front, rest, hsplit⟩ := List.append_of_mem hf.mem
  constructor
  case parallel => rw [aggregate_parallel hnames, hparallel]
  case parallel_elapsed => rw [aggregate_parallel hnames, helapsed]
  case sequential => rw [aggregate_sequential hnames, (hsequential front rest hsplit).1]
  case sequential_started =>
    intro front rest hs
    rw [aggregate_sequential hnames]
    exact (hsequential front rest hs).2
  case contained => exact fun v values time h => h.ne_crashed hnames

/-- The second of three fetches crashes. -/
theorem middle_crashes :
    let c := Circumstances.under (.root 0) 0 2000 none none
    let fetches : List (Source Nat String) :=
      [⟨"a", .after 10, .value 1⟩, ⟨"bad", .after 20, .crash⟩, ⟨"c", .after 30, .value 2⟩]
    let bad : Source Nat String := ⟨"bad", .after 20, .crash⟩
    let delay := fun f : Source Nat String =>
      if f.name = "a" then 10 else if f.name = "bad" then 20 else 30
    c.dropAt = none ∧ c.interruptAt = none ∧ (fetches.map (·.name)).Nodup ∧
      (∀ f ∈ fetches, f.trigger = .after (delay f)) ∧ (fetches.map delay).sum < c.deadline ∧
      CrashesOnce fetches bad ∧ Crashes c fetches bad delay .none := by
  intro c fetches bad delay
  have hcrash : CrashesOnce fetches bad :=
    { mem := by decide
      crash := rfl
      others := by simp [fetches, bad] }
  exact ⟨rfl, rfl, by decide, by decide, by decide, hcrash,
    crash_by_mode rfl rfl (by decide) delay (by decide) (by decide) hcrash .none⟩

/-- One after another, the crash of the second of three fetches reaches the caller. -/
theorem middle_crash_escapes :
    let c := Circumstances.under (.root 0) 0 2000 none none
    let fetches : List (Source Nat String) :=
      [⟨"a", .after 10, .value 1⟩, ⟨"bad", .after 20, .crash⟩, ⟨"c", .after 30, .value 2⟩]
    (aggregate .sequential c fetches .none).verdict = .crashed ∧
      (aggregate .sequential c fetches .none).verdict ≠ .answered (.error (.crashed "bad")) := by
  exact ⟨rfl, nofun⟩

end Billing.Fetch
