import Billing.Proofs.Fetch.Parallel

/-!
# Runs in whatever order things are seen

The end of a fetch, an interruption and the deadline are seen when the run is woken, which may be
later than they came, and which of them is seen first is left to chance. Here are all the runs that
may come about in this way. The runs that are made are among them.
-/

namespace Billing.Fetch

variable {α ε : Type} {c : Circumstances} {fetches : List (Source α ε)}

theorem Circumstances.dropAt_of_droppedBefore {t : Nat} (h : c.droppedBefore t = true) :
    c.dropAt = some (c.dropAt.getD 0) := by
  unfold droppedBefore at h
  cases hd : c.dropAt with
  | none => simp [hd] at h
  | some d => rfl

/-! ## What a run may come to -/

/-- What a run may come to, by the values that have come to it and the time of its end. -/
inductive Concludes (c : Circumstances) (fetches : List (Source α ε)) :
    Mode → Verdict α ε → Values α → Nat → Prop where
  | complete {mode : Mode} {values : Values α} {time : Nat} (collects : values.Collects fetches)
      (all : ∀ f ∈ fetches, values.Has f.name) :
      Concludes c fetches mode (.answered (.ok (.complete values))) values time
  | late {mode : Mode} {missing : List String} {values : Values α} {time : Nat}
      (rising : missing.Pairwise (· < ·))
      (mem_iff : ∀ n, n ∈ missing ↔ ∃ f ∈ fetches, f.name = n ∧ ¬ values.Has n)
      (deadline : c.deadline ≤ time) (some_missing : mode = .sequential → missing ≠ []) :
      Concludes c fetches mode (.answered (.ok (.unavailable missing))) values time
  | interrupted {mode : Mode} {values : Values α} {time : Nat}
      (interrupt : c.interruptedBy time = true)
      (some_missing : mode = .sequential → ∃ f ∈ fetches, ¬ values.Has f.name) :
      Concludes c fetches mode (.answered (.error .interrupted)) values time
  | failed {mode : Mode} {f : Source α ε} {x : Failure ε} {values : Values α} {time : Nat}
      (mem : f ∈ fetches) (silent : ¬ values.Has f.name) (failure : f.failure? = some x) :
      Concludes c fetches mode (.answered (.error x)) values time
  /-- One after another, nothing stands between a fetch that crashes and the caller. -/
  | crashed {f : Source α ε} {values : Values α} {time : Nat} (mem : f ∈ fetches)
      (silent : ¬ values.Has f.name) (crash : f.ending = .crash) :
      Concludes c fetches .sequential .crashed values time
  | dropped {mode : Mode} {f : Source α ε} {values : Values α} {time : Nat} (mem : f ∈ fetches)
      (silent : ¬ values.Has f.name) (drop : c.dropAt = some time) :
      Concludes c fetches mode .dropped values time

/-! ## All at once -/

namespace Parallel

variable {s s' s'' : State α ε} {m : Move α ε} {v : Verdict α ε} {joined : List (Source α ε)}

/-- A run at a later time, with nothing joined in between. -/
structure Later (s s' : State α ε) : Prop where
  elapsed : s.elapsed ≤ s'.elapsed
  running : s'.running = s.running
  pending : s'.pending = s.pending
  values : s'.values = s.values

/-- What one turn may do. A turn looks at the deadline as it begins; it may be a while before the
run is woken after that. -/
inductive Sees (c : Circumstances) (s : State α ε) : Move α ε → Prop where
  | late (time : c.deadline ≤ s.elapsed) :
      Sees c s (s.close c (.answered (.ok (.unavailable (inOrder (s.pending.map (·.2)))))))
  | interrupted {s' : State α ε} (time : s.elapsed < c.deadline) (wakes : Later s s')
      (interrupt : c.interruptedBy s'.elapsed = true) :
      Sees c s (s'.close c (.answered (.error .interrupted)))
  | complete {s' : State α ε} (time : s.elapsed < c.deadline) (wakes : Later s s')
      (running : s.running = []) : Sees c s (s'.close c (.answered (.ok (.complete s'.values))))
  /-- Of the fetches that have come to their end, any may be joined. -/
  | joins {s' : State α ε} {u i : Nat} {f : Source α ε} (time : s.elapsed < c.deadline)
      (wakes : Later s s') (mem : (i, f) ∈ s.running) (ended : endTime? c f = some u)
      (le : u ≤ s'.elapsed) : Sees c s (s'.join c i f)
  | waits {s' : State α ε} (time : s.elapsed < c.deadline) (wakes : Later s s')
      (running : s.running ≠ []) : Sees c s (.goOn s')
  | dropped {s' : State α ε} (time : s.elapsed < c.deadline) (running : s.running ≠ [])
      (values : s'.values = s.values) (drop : c.dropAt = some s'.elapsed) :
      Sees c s (s'.close c .dropped)

/-- A run comes from one state to its end. -/
inductive Runs (c : Circumstances) : State α ε → Verdict α ε → State α ε → Prop where
  | stop {s s' : State α ε} {v : Verdict α ε} (sees : Sees c s (.stop v s')) : Runs c s v s'
  | turn {s s' s'' : State α ε} {v : Verdict α ε} (sees : Sees c s (.goOn s'))
      (rest : Runs c s' v s'') : Runs c s v s''

theorem Later.refl (s : State α ε) : Later s s := ⟨Nat.le_refl _, rfl, rfl, rfl⟩

theorem Later.passTo {t : Nat} (h : s.elapsed ≤ t) : Later s (s.passTo c t) := ⟨h, rfl, rfl, rfl⟩

theorem Later.tally (h : Later s s') (ht : Tally fetches joined s) : Tally fetches joined s' where
  gathers := by
    rw [h.values, h.running]
    exact ht.gathers
  numbers := h.running ▸ ht.numbers
  pending := by
    rw [h.pending, h.running]
    exact ht.pending

/-! ### The runs that are made -/

theorem actAt_sees {t : Nat} {act : State α ε → Move α ε} (htime : s.elapsed < c.deadline)
    (hr : s.running ≠ []) (hact : Sees c s (act (s.passTo c t))) : Sees c s (s.actAt c t act) := by
  unfold State.actAt
  split
  · rename_i hd
    exact .dropped htime hr rfl (Circumstances.dropAt_of_droppedBefore hd)
  · exact hact

theorem idle_sees {limit : Nat} (htime : s.elapsed < c.deadline) (hr : s.running ≠ [])
    (hle : s.elapsed ≤ limit) (hcalm : ∀ t, c.interruptAt = some t → s.elapsed < t) :
    Sees c s (s.idle c limit) := by
  have hwait : Sees c s (s.actAt c limit .goOn) :=
    actAt_sees htime hr (.waits htime (.passTo hle) hr)
  unfold State.idle
  split
  · rename_i t ht
    split
    · refine actAt_sees htime hr (.interrupted htime (.passTo (Nat.le_of_lt (hcalm t ht))) ?_)
      exact Circumstances.interruptedBy_iff.mpr ⟨t, ht, Nat.le_refl t⟩
    · exact hwait
  · exact hwait

theorem next_sees (c : Circumstances) (p : Pace) (s : State α ε) : Sees c s (s.next c p) := by
  unfold State.next
  simp only
  split
  · rename_i hz
    exact .late (by omega)
  · rename_i hz
    have htime : s.elapsed < c.deadline := by omega
    split
    · rename_i hi
      exact .interrupted htime (.refl s) hi
    · rename_i hi
      have hcalm := Circumstances.interruptedBy_eq_false_iff.mp (Bool.eq_false_iff.mpr hi)
      split
      · rename_i hr
        exact .complete htime (.refl s) (List.isEmpty_iff.mp hr)
      · rename_i hr
        have hr : s.running ≠ [] := fun h => hr (List.isEmpty_iff.mpr h)
        have hidle := idle_sees htime hr
          (Nat.le_add_right s.elapsed (min p.attempt (c.deadline - s.elapsed))) hcalm
        split
        · exact hidle
        · rename_i t i f hfirst
          split
          · exact actAt_sees htime hr (.joins htime (.passTo (Nat.le_max_right ..))
              (mem_of_earliest? hfirst) (earliest?_eq_some hfirst).1 (Nat.le_max_left ..))
          · exact hidle

theorem finish_runs (c : Circumstances) (p : Pace) (s : State α ε) :
    Runs c s (finish p c s).1 (finish p c s).2 := by
  induction s using Parallel.finish.induct p c with
  | case1 s s' hs ih =>
      rw [finish, hs]
      exact .turn (hs ▸ next_sees c p s) ih
  | case2 s v s' hs =>
      rw [finish, hs]
      exact .stop (hs ▸ next_sees c p s)

/-! ### Their ends -/

variable (hn : (fetches.map (·.name)).Nodup)
include hn

theorem Sees.concludes (h : Tally fetches joined s) (hm : Sees c s m) :
    (∃ s' joined', m = .goOn s' ∧ Tally fetches joined' s') ∨
      ∃ v s', m = .stop v s' ∧ Concludes c fetches .parallel v s'.values s'.elapsed := by
  have hrunning : ∀ {i : Nat} {f : Source α ε}, (i, f) ∈ s.running →
      f ∈ fetches ∧ ¬ s.values.Has f.name := by
    intro i f hf
    refine ⟨h.mem_iff.mpr (Or.inr ⟨i, hf⟩), h.gathers.not_has_of_mem hn ?_⟩
    exact List.mem_map.mpr ⟨(i, f), hf, rfl⟩
  cases hm with
  | late htime =>
      refine Or.inr ⟨_, _, rfl, .late (h.rising_pending hn) (fun n => ?_) htime ?_⟩
      · rw [mem_inOrder, h.pending_names]
        exact h.gathers.mem_left_iff hn
      · exact nofun
  | interrupted _ _ hi => exact Or.inr ⟨_, _, rfl, .interrupted hi nofun⟩
  | @complete s' _ hw hr =>
      have hg : s'.values.Gathers fetches joined [] := by
        have := (hw.tally h).gathers
        rwa [hw.running, hr] at this
      refine Or.inr ⟨_, _, rfl, .complete (hg.collects.of_members fun f => (hg.all_made f).symm) ?_⟩
      exact fun f hf => hg.has_of_mem ((hg.all_made f).mp hf)
  | @joins s' u i f _ hw hf _ _ =>
      obtain ⟨hmem, hsilent⟩ := hrunning hf
      generalize hmove : s'.join c i f = m
      cases hmove ▸ (hw.tally h).join hn (hw.running.symm ▸ hf) c with
      | entered _ _ ht => exact Or.inl ⟨_, _, rfl, ht⟩
      | failed hx _ hv =>
          refine Or.inr ⟨_, _, rfl, .failed hmem ?_ hx⟩
          rwa [hv, hw.values]
  | waits _ hw _ => exact Or.inl ⟨_, _, rfl, hw.tally h⟩
  | @dropped s' _ hr hv hdrop =>
      obtain ⟨⟨i, f⟩, hf⟩ := List.exists_mem_of_ne_nil _ hr
      obtain ⟨hmem, hsilent⟩ := hrunning hf
      exact Or.inr ⟨_, _, rfl, .dropped hmem (show ¬ s'.values.Has f.name by rwa [hv]) hdrop⟩

theorem Runs.concludes (h : Tally fetches joined s) (hr : Runs c s v s') :
    Concludes c fetches .parallel v s'.values s'.elapsed := by
  induction hr generalizing joined with
  | stop sees =>
      rcases sees.concludes hn h with ⟨_, _, he, _⟩ | ⟨v, s', he, hc⟩
      · cases he
      · cases he
        exact hc
  | turn sees _ ih =>
      rcases sees.concludes hn h with ⟨_, _, he, ht⟩ | ⟨_, _, he, _⟩
      · cases he
        exact ih ht
      · cases he

end Parallel

/-! ## One after another -/

namespace Sequential

variable {s s' s'' : State α ε} {m : Move α ε} {v : Verdict α ε} {f : Source α ε}
  {done rest : List (Source α ε)}

/-- A run at a later time, with no value more. -/
structure Later (s s' : State α ε) : Prop where
  elapsed : s.elapsed ≤ s'.elapsed
  values : s'.values = s.values

/-- What a run may do with a fetch that it starts, and others behind it. -/
inductive Sees (c : Circumstances) (s : State α ε) (f : Source α ε) (rest : List (Source α ε)) :
    Move α ε → Prop where
  | ends {s' : State α ε} {u : Nat} (wakes : Later s s') (ended : s.endTime? f = some u)
      (le : u ≤ s'.elapsed) : Sees c s f rest (s'.record c f)
  | late {s' : State α ε} (wakes : Later s s') (time : c.deadline ≤ s'.elapsed) :
      Sees c s f rest
        (s'.close c (.answered (.ok (.unavailable (inOrder (f.name :: rest.map (·.name)))))))
  | interrupted {s' : State α ε} (wakes : Later s s')
      (interrupt : c.interruptedBy s'.elapsed = true) :
      Sees c s f rest (s'.close c (.answered (.error .interrupted)))
  | dropped {s' : State α ε} (values : s'.values = s.values) (drop : c.dropAt = some s'.elapsed) :
      Sees c s f rest (s'.close c .dropped)

/-- A run comes to its end with these fetches left to make. -/
inductive Runs (c : Circumstances) : List (Source α ε) → State α ε → Verdict α ε → State α ε → Prop
    where
  | complete {s : State α ε} : Runs c [] s (.answered (.ok (.complete s.values))) (s.closed c)
  | stop {f : Source α ε} {rest : List (Source α ε)} {s s' : State α ε} {v : Verdict α ε}
      (sees : Sees c s f rest (.stop v s')) : Runs c (f :: rest) s v s'
  | turn {f : Source α ε} {rest : List (Source α ε)} {s s' s'' : State α ε} {v : Verdict α ε}
      (sees : Sees c s f rest (.goOn s')) (others : Runs c rest s' v s'') :
      Runs c (f :: rest) s v s''

/-! ### The runs that are made -/

theorem actAt_sees {s₀ : State α ε} {t : Nat} {act : State α ε → Move α ε}
    (hv : s.values = s₀.values) (hact : Sees c s₀ f rest (act (s.passTo c t))) :
    Sees c s₀ f rest (s.actAt c t act) := by
  unfold State.actAt
  split
  · rename_i hd
    exact .dropped hv (Circumstances.dropAt_of_droppedBefore hd)
  · exact hact

theorem fetch_sees (c : Circumstances) (s : State α ε) (f : Source α ε)
    (rest : List (Source α ε)) : Sees c s f rest (s.fetch c f rest) := by
  unfold State.fetch
  -- The state in which the fetch has just been started.
  generalize hs' : ({ s with started := s.started ++ [(f.name, c.scope)] } : State α ε) = s'
  have hv : s'.values = s.values := by rw [← hs']
  have he : s'.elapsed = s.elapsed := by rw [← hs']
  have hend : s'.endTime? f = s.endTime? f := by
    rw [← hs']
    rfl
  have hpass : ∀ {t}, s.elapsed ≤ t → Later s (s'.passTo c t) := fun h => ⟨h, hv⟩
  simp only
  split
  · rename_i hi
    exact .interrupted ⟨he.ge, hv⟩ hi
  · rename_i hi
    have hcalm := Circumstances.interruptedBy_eq_false_iff.mp (Bool.eq_false_iff.mpr hi)
    have hidle : Sees c s f rest
        (s'.idle c (max s'.elapsed c.deadline) (f.name :: rest.map (·.name))) := by
      have hlate : Sees c s f rest (s'.actAt c (max s'.elapsed c.deadline) fun s =>
          s.close c (.answered (.ok (.unavailable (inOrder (f.name :: rest.map (·.name))))))) :=
        actAt_sees hv (.late (hpass (by omega)) (Nat.le_max_right ..))
      unfold State.idle
      split
      · rename_i t ht
        have := hcalm t ht
        simp only
        split
        · refine actAt_sees hv (.interrupted (hpass (by omega)) ?_)
          exact Circumstances.interruptedBy_iff.mpr ⟨t, ht, Nat.le_refl t⟩
        · exact hlate
      · exact hlate
    split
    · exact hidle
    · rename_i t ht
      rw [hend] at ht
      split
      · have hle : s.elapsed ≤ t := by
          unfold State.endTime? at ht
          split at ht <;> cases ht
          exact Nat.le_add_right ..
        exact actAt_sees hv (.ends (hpass hle) ht (Nat.le_refl t))
      · exact hidle

theorem finish_runs (c : Circumstances) (fetches : List (Source α ε)) (s : State α ε) :
    Runs c fetches s (finish c fetches s).1 (finish c fetches s).2 := by
  induction fetches generalizing s with
  | nil => exact .complete
  | cons f rest ih =>
      have hsees := fetch_sees c s f rest
      unfold finish
      cases hm : s.fetch c f rest with
      | goOn s' => exact .turn (hm ▸ hsees) (ih s')
      | stop v s' => exact .stop (hm ▸ hsees)

/-! ### Their ends -/

variable (hn : (fetches.map (·.name)).Nodup)
include hn

theorem Sees.concludes (h : s.values.Gathers fetches done (f :: rest))
    (hm : Sees c s f rest m) :
    (∃ s', m = .goOn s' ∧ s'.values.Gathers fetches (f :: done) rest) ∨
      ∃ v s', m = .stop v s' ∧ Concludes c fetches .sequential v s'.values s'.elapsed := by
  have hmem : f ∈ fetches := h.mem_iff.mpr (Or.inr List.mem_cons_self)
  have hsilent : ¬ s.values.Has f.name := h.not_has_of_mem hn List.mem_cons_self
  cases hm with
  | @ends s' u hw _ _ =>
      rw [← hw.values] at h hsilent
      unfold State.record
      cases hend : f.ending with
      | value a => exact Or.inl ⟨_, rfl, h.insert hn (.refl _) hend⟩
      | error e =>
          exact Or.inr ⟨_, _, rfl, .failed hmem hsilent (by simp [Source.failure?, hend])⟩
      | crash => exact Or.inr ⟨_, _, rfl, .crashed hmem hsilent hend⟩
  | @late s' hw htime =>
      rw [← hw.values] at h
      have hrising := rising_inOrder (List.nodup_append.mp (h.names hn)).2.1
      refine Or.inr ⟨_, _, rfl, .late hrising (fun n => ?_) htime fun _ hnil => ?_⟩
      · rw [mem_inOrder]
        exact h.mem_left_iff hn
      · have := mem_inOrder.mpr (List.mem_cons_self (a := f.name) (l := rest.map (·.name)))
        rw [hnil] at this
        cases this
  | interrupted hw hi =>
      exact Or.inr ⟨_, _, rfl, .interrupted hi fun _ => ⟨f, hmem, hw.values ▸ hsilent⟩⟩
  | @dropped s' hv hdrop => exact Or.inr ⟨_, _, rfl, .dropped hmem (hv ▸ hsilent) hdrop⟩

theorem Runs.concludes (h : s.values.Gathers fetches done rest) (hr : Runs c rest s v s') :
    Concludes c fetches .sequential v s'.values s'.elapsed := by
  induction hr generalizing done with
  | complete =>
      refine .complete (h.collects.of_members fun f => (h.all_made f).symm) fun f hf => ?_
      exact h.has_of_mem ((h.all_made f).mp hf)
  | stop sees =>
      rcases sees.concludes hn h with ⟨_, he, _⟩ | ⟨v, s', he, hc⟩
      · cases he
      · cases he
        exact hc
  | turn sees _ ih =>
      rcases sees.concludes hn h with ⟨_, he, hg⟩ | ⟨_, _, he, _⟩
      · cases he
        exact ih hg
      · cases he

end Sequential

/-! ## Both modes -/

/-- A run that may come about: its verdict, the values that have come to it by then, and when it
ends. It may be a while before its first turn. -/
inductive Observed (c : Circumstances) (fetches : List (Source α ε)) (cancelled : Cancelled) :
    Mode → Verdict α ε → Values α → Nat → Prop where
  | parallel {s s' : Parallel.State α ε} {v : Verdict α ε}
      (start : Parallel.Later (.initial fetches (c.cancelledAt 0 cancelled)) s)
      (runs : Parallel.Runs c s v s') :
      Observed c fetches cancelled .parallel v s'.values s'.elapsed
  | sequential {s s' : Sequential.State α ε} {v : Verdict α ε}
      (start : Sequential.Later (.initial (c.cancelledAt 0 cancelled)) s)
      (runs : Sequential.Runs c fetches s v s') :
      Observed c fetches cancelled .sequential v s'.values s'.elapsed

section Runs

variable {mode : Mode} {cancelled : Cancelled} {v : Verdict α ε} {values : Values α} {time : Nat}
  (hn : (fetches.map (·.name)).Nodup)
include hn

/-- The run that is made is one of those that may come about. -/
theorem observed_aggregate (mode : Mode) (c : Circumstances) (cancelled : Cancelled) :
    ∃ values, Observed c fetches cancelled mode (aggregate mode c fetches cancelled).verdict values
      (aggregate mode c fetches cancelled).elapsed := by
  cases mode with
  | sequential =>
      rw [aggregate_sequential hn]
      exact ⟨_, .sequential ⟨Nat.le_refl _, rfl⟩ (Sequential.finish_runs c fetches _)⟩
  | parallel =>
      rw [aggregate_parallel hn]
      exact ⟨_, .parallel (.refl _) (Parallel.finish_runs c .standard _)⟩

theorem Observed.concludes (h : Observed c fetches cancelled mode v values time) :
    Concludes c fetches mode v values time := by
  cases h with
  | parallel start runs => exact runs.concludes hn (start.tally (.initial fetches _))
  | @sequential s s' v start runs =>
      have hstart : s.values.Gathers fetches [] fetches := by
        rw [start.values]
        exact .start fetches
      exact runs.concludes hn hstart

end Runs

/-! ## What an answer tells -/

/-- What the answer of a run tells of the values that have come to it. -/
structure Tells (c : Circumstances) (fetches : List (Source α ε)) (mode : Mode) (v : Verdict α ε)
    (values : Values α) (time : Nat) : Prop where
  /-- The missing names are those of the fetches from which no value has come, in order. -/
  unavailable : ∀ missing, v = .answered (.ok (.unavailable missing)) →
    c.deadline ≤ time ∧ missing.Pairwise (· < ·) ∧
      ∀ n, n ∈ missing ↔ ∃ f ∈ fetches, f.name = n ∧ ¬ values.Has n
  /-- Only at once can an answer that names nothing be given. -/
  empty : v = .answered (.ok (.unavailable [])) →
    mode = .parallel ∧ ∀ f ∈ fetches, values.Has f.name
  complete : ∀ all, v = .answered (.ok (.complete all)) → all = values ∧ all.Collects fetches
  /-- Once all values have come, they are the answer; at once, a deadline that has come as well by
  the next turn is answered instead, and so is an interruption. -/
  delivered : (∀ f ∈ fetches, values.Has f.name) →
    v = .answered (.ok (.complete values)) ∨
      mode = .parallel ∧
        (c.deadline ≤ time ∧ v = .answered (.ok (.unavailable [])) ∨
          c.interruptedBy time = true ∧ v = .answered (.error .interrupted))

theorem Concludes.tells {mode : Mode} {v : Verdict α ε} {values : Values α} {time : Nat}
    (h : Concludes c fetches mode v values time) : Tells c fetches mode v values time := by
  cases h with
  | complete hcollects hall =>
      refine ⟨nofun, nofun, ?_, fun _ => Or.inl rfl⟩
      rintro all ⟨⟩
      exact ⟨rfl, hcollects⟩
  | @late mode missing values time hrising hmem htime hsome =>
      have hnil : missing = [] ↔ ∀ f ∈ fetches, values.Has f.name := by
        rw [List.eq_nil_iff_forall_not_mem]
        constructor
        · intro hnot f hf
          by_contra hhas
          exact hnot f.name ((hmem f.name).mpr ⟨f, hf, rfl, hhas⟩)
        · intro hall n hn
          obtain ⟨f, hf, rfl, hhas⟩ := (hmem n).mp hn
          exact hhas (hall f hf)
      have hmode : missing = [] → mode = .parallel := by
        intro he
        cases mode with
        | sequential => exact absurd he (hsome rfl)
        | parallel => rfl
      refine ⟨?_, ?_, nofun, fun hall => ?_⟩
      · rintro _ ⟨⟩
        exact ⟨htime, hrising, hmem⟩
      · rintro ⟨⟩
        exact ⟨hmode rfl, hnil.mp rfl⟩
      · have he := hnil.mpr hall
        exact Or.inr ⟨hmode he, Or.inl ⟨htime, by rw [he]⟩⟩
  | @interrupted mode values time hi hsome =>
      refine ⟨nofun, nofun, nofun, fun hall => Or.inr ⟨?_, Or.inr ⟨hi, rfl⟩⟩⟩
      cases mode with
      | sequential =>
          obtain ⟨f, hf, hnot⟩ := hsome rfl
          exact absurd (hall f hf) hnot
      | parallel => rfl
  | failed hf hnot _ => exact ⟨nofun, nofun, nofun, fun hall => absurd (hall _ hf) hnot⟩
  | crashed hf hnot _ => exact ⟨nofun, nofun, nofun, fun hall => absurd (hall _ hf) hnot⟩
  | dropped hf hnot _ => exact ⟨nofun, nofun, nofun, fun hall => absurd (hall _ hf) hnot⟩

/-- However late things are seen and in whatever order, an answer at the deadline names the fetches
from which no value has come, in order, and no others; one after another it names one at least.
Where all values have come they are the answer, with one exception: all at once, the run looks at
its deadline first, and where that has come by then too, it answers that nothing is missing. -/
theorem deadline_answered (hnames : (fetches.map (·.name)).Nodup) (mode : Mode)
    (c : Circumstances) (cancelled : Cancelled) :
    (∃ values, Observed c fetches cancelled mode (aggregate mode c fetches cancelled).verdict values
        (aggregate mode c fetches cancelled).elapsed) ∧
      ∀ v values time, Observed c fetches cancelled mode v values time →
        Tells c fetches mode v values time :=
  ⟨observed_aggregate hnames mode c cancelled, fun _ _ _ h => (h.concludes hnames).tells⟩

/-- One after another, the second of three fetches takes longer than there is time. -/
theorem slow_answered :
    let c := Circumstances.under (.root 0) 0 100 none none
    let fetches : List (Source Nat String) :=
      [⟨"account", .after 10, .value 1⟩, ⟨"invoices", .after 150, .value 2⟩,
        ⟨"bundles", .never, .crash⟩]
    (fetches.map (·.name)).Nodup ∧
      ∃ values, Observed c fetches .none .sequential
        (.answered (.ok (.unavailable ["bundles", "invoices"]))) values 100 ∧
          Tells c fetches .sequential (.answered (.ok (.unavailable ["bundles", "invoices"])))
            values 100 := by
  intro c fetches
  have hnames : (fetches.map (·.name)).Nodup := by decide
  have hlt : "bundles" < "invoices" := by decide
  have horder : inOrder ["invoices", "bundles"] = ["bundles", "invoices"] :=
    eq_of_rising (· < ·) String.lt_irrefl (fun _ _ _ => String.lt_trans)
      (rising_inOrder (by decide)) (List.pairwise_pair.mpr hlt)
      fun n => by simp [mem_inOrder, or_comm]
  obtain ⟨⟨values, hobserved⟩, htells⟩ := deadline_answered hnames .sequential c .none
  rw [show (aggregate .sequential c fetches .none).verdict =
    .answered (.ok (.unavailable (inOrder ["invoices", "bundles"]))) from rfl, horder] at hobserved
  exact ⟨hnames, values, hobserved, htells _ _ _ hobserved⟩

/-- A run of no fetches without any time, and one whose only value comes just at the deadline: made
at once they answer that values are missing, and name none. -/
theorem deadline_answered_empty :
    let now := Circumstances.under (.root 0) 0 0 none none
    let tight := Circumstances.under (.root 0) 0 100 none none
    let nothing : List (Source Nat String) := []
    let account : Source Nat String := ⟨"account", .after 100, .value 1⟩
    (aggregate .parallel now nothing .none).verdict = .answered (.ok (.unavailable [])) ∧
      (aggregate .sequential now nothing .none).verdict = .answered (.ok (.complete [])) ∧
      (aggregate .parallel tight [account] .none).verdict = .answered (.ok (.unavailable [])) ∧
      (aggregate .sequential tight [account] .none).verdict =
        .answered (.ok (.complete [("account", 1)])) := by
  intro now tight nothing account
  refine ⟨?_, rfl, ?_, rfl⟩
  · rw [aggregate_parallel (by decide)]
    simp [Parallel.runAt, Parallel.finish, Parallel.State.next, Parallel.State.initial,
      Parallel.State.close, Circumstances.under, inOrder, now, nothing]
  · rw [aggregate_parallel (by decide)]
    simp [Parallel.runAt, Parallel.finish, Parallel.State.next, Parallel.State.initial,
      Parallel.State.passTo, Parallel.State.close, Parallel.State.actAt, Parallel.State.join,
      Parallel.earliest?, Parallel.endTime?, Parallel.Pace.standard, Circumstances.under,
      Circumstances.interruptedBy, Circumstances.droppedBefore, inOrder, tight, account]

end Billing.Fetch
