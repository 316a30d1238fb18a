import Billing.Fetch.Basic

/-!
# Fetches at once

All fetches are started together. The run then joins them as they come to their end, in attempts
that last no longer than its pace allows; before each attempt it looks whether the deadline has come.
-/

namespace Billing.Fetch.Parallel

variable {α ε : Type}

/-- How long one attempt to join a fetch may last. -/
structure Pace where
  attempt : Nat
  pos : 0 < attempt

/-- Attempts of a tenth of a second. -/
def Pace.standard : Pace := ⟨100, by decide⟩

/-- A run in progress. -/
structure State (α ε : Type) where
  elapsed : Nat
  /-- The fetches that have not been joined, by number, in the order of submission. -/
  running : List (Nat × Source α ε)
  /-- The names of the fetches that have not been joined, by number. -/
  pending : List (Nat × String)
  values : Values α
  cancelled : Cancelled

/-- What a run does next. -/
inductive Move (α ε : Type) where
  | goOn (state : State α ε)
  | stop (verdict : Verdict α ε) (state : State α ε)

/-- The start of a run: all fetches are started. -/
def State.initial (fetches : List (Source α ε)) (cancelled : Cancelled) : State α ε where
  elapsed := 0
  running := fetches.zipIdx.map fun (f, i) => (i, f)
  pending := fetches.zipIdx.map fun (f, i) => (i, f.name)
  values := []
  cancelled := cancelled

/-- The time at which a fetch comes to its end. -/
def endTime? (c : Circumstances) (f : Source α ε) : Option Nat :=
  match f.trigger with
  | .after delay => some delay
  | .onCancel => c.interruptAt
  | .never => none

/-- The fetch that comes to its end first, of several the one submitted first. -/
def earliest? (c : Circumstances) : List (Nat × Source α ε) → Option (Nat × Nat × Source α ε)
  | [] => none
  | (i, f) :: rest =>
    match endTime? c f, earliest? c rest with
    | none, later => later
    | some t, none => some (t, i, f)
    | some t, some later => if later.1 < t then some later else some (t, i, f)

namespace State

/-- Time passes up to a moment. -/
def passTo (s : State α ε) (c : Circumstances) (time : Nat) : State α ε :=
  { s with elapsed := time, cancelled := c.cancelledAt time s.cancelled }

/-- The run ends: its own token is cancelled. -/
def close (s : State α ε) (c : Circumstances) (v : Verdict α ε) : Move α ε :=
  .stop v { s with cancelled := s.cancelled.add c.scope }

/-- Time passes up to a moment at which the run acts, unless the run is dropped before. -/
def actAt (s : State α ε) (c : Circumstances) (time : Nat) (act : State α ε → Move α ε) :
    Move α ε :=
  if c.droppedBefore time then (s.passTo c (c.dropAt.getD 0)).close c .dropped
  else act (s.passTo c time)

/-- Joins a fetch that has come to its end. -/
def join (s : State α ε) (c : Circumstances) (i : Nat) (f : Source α ε) : Move α ε :=
  let name := (s.pending.lookup i).getD ""
  let s := { s with
    running := s.running.filter fun r => r.1 != i
    pending := s.pending.filter fun p => p.1 != i }
  match f.ending with
  | .value a => .goOn { s with values := s.values.insert name a }
  | .error e => s.close c (.answered (.error (.source name e)))
  | .crash => s.close c (.answered (.error (.crashed name)))

/-- Nothing can be joined up to the end of the attempt. -/
def idle (s : State α ε) (c : Circumstances) (limit : Nat) : Move α ε :=
  match c.interruptAt with
  | some i =>
    if i ≤ limit then s.actAt c i fun s => s.close c (.answered (.error .interrupted))
    else s.actAt c limit .goOn
  | none => s.actAt c limit .goOn

/-- One turn of the run. -/
def next (s : State α ε) (c : Circumstances) (p : Pace) : Move α ε :=
  let remaining := c.deadline - s.elapsed
  if remaining = 0 then
    s.close c (.answered (.ok (.unavailable (inOrder (s.pending.map (·.2))))))
  else if c.interruptedBy s.elapsed then s.close c (.answered (.error .interrupted))
  else if s.running.isEmpty then s.close c (.answered (.ok (.complete s.values)))
  else
    let limit := s.elapsed + min p.attempt remaining
    match earliest? c s.running with
    | none => s.idle c limit
    | some (t, i, f) =>
      let time := max t s.elapsed
      if time ≤ limit ∧ !c.interruptedBy time then s.actAt c time fun s => s.join c i f
      else s.idle c limit

end State

/-! ## Every turn brings the end nearer -/

/-- What is left to do: fetches to join, and time before the deadline. -/
def remainder (c : Circumstances) (s : State α ε) : Nat :=
  s.running.length + (c.deadline - s.elapsed)

theorem mem_of_earliest? {c : Circumstances} {fs : List (Nat × Source α ε)} {t i : Nat}
    {f : Source α ε} (h : earliest? c fs = some (t, i, f)) : (i, f) ∈ fs := by
  induction fs generalizing t i f with
  | nil => simp [earliest?] at h
  | cons g gs ih =>
    obtain ⟨j, g⟩ := g
    simp only [earliest?] at h
    split at h
    · exact List.mem_cons_of_mem _ (ih h)
    · cases h; exact List.mem_cons_self
    · next later hl =>
      split at h
      · cases h; exact List.mem_cons_of_mem _ (ih hl)
      · cases h; exact List.mem_cons_self

theorem State.goOn_of_actAt {s s' : State α ε} {c : Circumstances} {time : Nat}
    {act : State α ε → Move α ε} (h : s.actAt c time act = .goOn s') :
    act (s.passTo c time) = .goOn s' := by
  unfold State.actAt at h
  split at h
  · simp [State.close] at h
  · exact h

theorem State.goOn_of_idle {s s' : State α ε} {c : Circumstances} {limit : Nat}
    (h : s.idle c limit = .goOn s') : s' = s.passTo c limit := by
  have goOn : s.actAt c limit .goOn = .goOn s' → s' = s.passTo c limit := fun h => by
    have := goOn_of_actAt h
    simpa [eq_comm] using this
  unfold State.idle at h
  split at h
  · split at h
    · have := goOn_of_actAt h
      simp [State.close] at this
    · exact goOn h
  · exact goOn h

theorem State.goOn_of_join {s s' : State α ε} {c : Circumstances} {i : Nat} {f : Source α ε}
    (h : s.join c i f = .goOn s') :
    s'.elapsed = s.elapsed ∧ s'.running = s.running.filter fun r => r.1 != i := by
  unfold State.join at h
  split at h
  · cases h; exact ⟨rfl, rfl⟩
  · simp [State.close] at h
  · simp [State.close] at h

theorem remainder_next {c : Circumstances} {p : Pace} {s s' : State α ε}
    (h : s.next c p = .goOn s') :
    remainder c s' < remainder c s := by
  unfold State.next at h
  simp only at h
  split at h
  · simp [State.close] at h
  · next hr =>
    split at h
    · simp [State.close] at h
    · split at h
      · simp [State.close] at h
      · have idle : s.idle c (s.elapsed + min p.attempt (c.deadline - s.elapsed)) = .goOn s' →
            remainder c s' < remainder c s := fun h => by
          have := p.pos
          rw [State.goOn_of_idle h]
          simp only [remainder, State.passTo]
          omega
        split at h
        · exact idle h
        · next t i f he =>
          split at h
          · obtain ⟨ht, hrun⟩ := State.goOn_of_join (State.goOn_of_actAt h)
            have hlt : (s.running.filter fun r => r.1 != i).length < s.running.length :=
              List.length_filter_lt_length_iff_exists.2 ⟨(i, f), mem_of_earliest? he, by simp⟩
            simp only [remainder, ht, hrun, State.passTo]
            omega
          · exact idle h

/-- Takes turns until the run ends. -/
def finish (p : Pace) (c : Circumstances) (s : State α ε) : Verdict α ε × State α ε :=
  match _h : s.next c p with
  | .goOn s' => finish p c s'
  | .stop v s' => (v, s')
termination_by remainder c s
decreasing_by exact remainder_next ‹_›

/-! ## Whole runs -/

/-- The names of the fetches that came to their end in a run that ended at some time. A run that
ends before it lets time pass sees no fetch end. -/
def finishedBy (c : Circumstances) (fetches : List (Source α ε)) (time : Nat) : List String :=
  if c.deadline = 0 ∨ c.interruptedBy 0 then []
  else
    inOrder ((fetches.filter fun f => (endTime? c f).any (· ≤ time)).map (·.name))

/-- Makes all fetches of a run at once, at some pace. -/
def runAt (p : Pace) (c : Circumstances) (fetches : List (Source α ε)) (cancelled : Cancelled) :
    Report α ε :=
  let (v, s) := finish p c (State.initial fetches (c.cancelledAt 0 cancelled))
  { verdict := v
    elapsed := s.elapsed
    started := fetches.map fun f => (f.name, c.scope)
    finished := finishedBy c fetches s.elapsed
    cancelled := s.cancelled }

/-- Makes all fetches of a run at once. -/
def run (c : Circumstances) (fetches : List (Source α ε)) (cancelled : Cancelled) : Report α ε :=
  runAt .standard c fetches cancelled

end Billing.Fetch.Parallel
