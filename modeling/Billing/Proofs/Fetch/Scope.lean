import Billing.Proofs.Fetch.Parallel

/-!
# What a run cancels

A run hands one token of its own to all its fetches. However the run ends, that token has been
cancelled by then; before, it counts as cancelled only once the caller has been interrupted. No
other token is touched: neither that of the caller nor those of other runs below it.
-/

namespace Billing.Fetch

variable {α ε : Type}

/-! ## Tokens in their tree -/

namespace Token

variable {t u : Token} {m n : Nat}

theorem covers_iff : t.covers u = true ↔ t.path <:+ u.path := List.isSuffixOf_iff_suffix

theorem covers_refl (t : Token) : t.covers t = true := covers_iff.mpr List.suffix_rfl

theorem covers_child_iff : u.covers (t.child n) = true ↔ u = t.child n ∨ u.covers t = true := by
  rw [covers_iff, covers_iff, child, List.suffix_cons_iff]
  exact or_congr_left ⟨fun h => by cases u; cases h; rfl, fun h => by rw [h]⟩

theorem not_child_covers (t : Token) (n : Nat) : (t.child n).covers t = false := by
  rw [Bool.eq_false_iff, Ne, covers_iff]
  intro h
  have hle := h.length_le
  simp [child] at hle

/-- Tokens side by side do not cancel each other. -/
theorem not_child_covers_child (h : m ≠ n) : (t.child m).covers (t.child n) = false := by
  rw [Bool.eq_false_iff, Ne, covers_child_iff, not_child_covers]
  rintro (he | he)
  · cases he
    exact h rfl
  · cases he

end Token

@[simp] theorem Cancelled.contains_add (x : Cancelled) (t u : Token) :
    (x.add t).contains u = (t.covers u || x.contains u) := rfl

namespace Circumstances

variable {c : Circumstances} {before x y : Cancelled} {t : Token} {time later : Nat}

theorem contains_cancelledAt :
    (c.cancelledAt time x).contains t =
      (x.contains t || (c.interruptedBy time && c.interrupt.covers t)) := by
  unfold cancelledAt
  split
  · rename_i h
    rw [Cancelled.contains_add, h, Bool.true_and, Bool.or_comm]
  · rename_i h
    rw [Bool.eq_false_iff.mpr h, Bool.false_and, Bool.or_false]

theorem interruptedBy_mono (h : time ≤ later) (hi : c.interruptedBy time = true) :
    c.interruptedBy later = true := by
  obtain ⟨t, ht, hle⟩ := interruptedBy_iff.mp hi
  exact interruptedBy_iff.mpr ⟨t, ht, Nat.le_trans hle h⟩

/-! ## What is cancelled by some time -/

/-- By some time nothing more counts as cancelled than before the run, up to the interruption of the
caller, and nobody has dropped the run. -/
structure Spares (c : Circumstances) (before : Cancelled) (time : Nat) (x : Cancelled) : Prop where
  contains : ∀ t, x.contains t = (c.cancelledAt time before).contains t
  undropped : ∀ d, c.dropAt = some d → time ≤ d

/-- The own token of the run counts as cancelled, and otherwise nothing more than before the run, up
to the interruption of the caller. -/
def Closes (c : Circumstances) (before : Cancelled) (time : Nat) (x : Cancelled) : Prop :=
  ∀ t, x.contains t = (c.scope.covers t || (c.cancelledAt time before).contains t)

theorem Spares.start (c : Circumstances) (before : Cancelled) :
    c.Spares before 0 (c.cancelledAt 0 before) :=
  ⟨fun _ => rfl, fun _ _ => Nat.zero_le _⟩

theorem Spares.contains_pass (h : c.Spares before time x) (hle : time ≤ later) (t : Token) :
    (c.cancelledAt later x).contains t = (c.cancelledAt later before).contains t := by
  have hmono := interruptedBy_mono (c := c) hle
  simp only [contains_cancelledAt, h.contains]
  cases hi : c.interruptedBy time with
  | false => simp
  | true =>
      rw [hmono hi]
      cases before.contains t <;> simp

theorem Spares.pass (h : c.Spares before time x) (hle : time ≤ later)
    (hdrop : ∀ d, c.dropAt = some d → later ≤ d) : c.Spares before later (c.cancelledAt later x) :=
  ⟨h.contains_pass hle, hdrop⟩

/-- Time passes up to a later moment, or the run is dropped on the way. -/
theorem Spares.pass_or_drop (h : c.Spares before time x) (hle : time ≤ later) :
    c.droppedBefore later = false ∧ c.Spares before later (c.cancelledAt later x) ∨
      c.droppedBefore later = true ∧
        c.Spares before (c.dropAt.getD 0) (c.cancelledAt (c.dropAt.getD 0) x) := by
  cases hd : c.dropAt with
  | none =>
      refine Or.inl ⟨by simp [droppedBefore, hd], h.pass hle fun d hd' => ?_⟩
      rw [hd] at hd'
      cases hd'
  | some d =>
      by_cases hlt : d < later
      · refine Or.inr ⟨by simp [droppedBefore, hd, hlt], h.pass (h.undropped d hd) fun e he => ?_⟩
        rw [hd] at he
        cases he
        exact Nat.le_refl d
      · refine Or.inl ⟨by simp [droppedBefore, hd, Nat.le_of_not_lt hlt], h.pass hle fun e he => ?_⟩
        rw [hd] at he
        cases he
        exact Nat.le_of_not_lt hlt

theorem Spares.close (h : c.Spares before time x) : c.Closes before time (x.add c.scope) := by
  intro t
  rw [Cancelled.contains_add, h.contains]

end Circumstances

/-! ## All at once -/

namespace Parallel

variable {c : Circumstances} {p : Pace} {before : Cancelled} {s s₀ : State α ε} {m : Move α ε}
  {v : Verdict α ε} {time : Nat}

/-- A run goes on with nothing of its own cancelled, or it ends with its token cancelled. -/
def Move.Keeps (c : Circumstances) (before : Cancelled) : Move α ε → Prop
  | .goOn s => c.Spares before s.elapsed s.cancelled
  | .stop _ s => c.Closes before s.elapsed s.cancelled

theorem keeps_close (h : c.Spares before s.elapsed s.cancelled) (v : Verdict α ε) :
    (s.close c v).Keeps c before :=
  h.close

theorem keeps_actAt {act : State α ε → Move α ε} (h : c.Spares before s.elapsed s.cancelled)
    (hle : s.elapsed ≤ time)
    (hact : c.Spares before time (s.passTo c time).cancelled →
      (act (s.passTo c time)).Keeps c before) :
    (s.actAt c time act).Keeps c before := by
  unfold State.actAt
  rcases h.pass_or_drop hle with ⟨hd, hs⟩ | ⟨hd, hs⟩
  · rw [hd, if_neg Bool.false_ne_true]
    exact hact hs
  · rw [hd, if_pos rfl]
    exact keeps_close hs _

theorem keeps_join (h : c.Spares before s.elapsed s.cancelled) (i : Nat) (f : Source α ε) :
    (s.join c i f).Keeps c before := by
  unfold State.join
  cases f.ending with
  | value a => exact h
  | error e => exact h.close
  | crash => exact h.close

theorem keeps_idle {limit : Nat} (h : c.Spares before s.elapsed s.cancelled)
    (hle : s.elapsed ≤ limit) (hcalm : ∀ t, c.interruptAt = some t → s.elapsed ≤ t) :
    (s.idle c limit).Keeps c before := by
  have hwait : (s.actAt c limit .goOn).Keeps c before := keeps_actAt h hle id
  unfold State.idle
  cases hi : c.interruptAt with
  | none => exact hwait
  | some i =>
      simp only
      split
      · exact keeps_actAt h (hcalm i hi) fun hs => keeps_close hs _
      · exact hwait

theorem keeps_next (h : c.Spares before s.elapsed s.cancelled) (p : Pace) :
    (s.next c p).Keeps c before := by
  unfold State.next
  simp only
  split
  · exact keeps_close h _
  · split
    · exact keeps_close h _
    · rename_i hi
      have hcalm := Circumstances.interruptedBy_eq_false_iff.mp (Bool.eq_false_iff.mpr hi)
      split
      · exact keeps_close h _
      · have hidle := keeps_idle h
          (Nat.le_add_right s.elapsed (min p.attempt (c.deadline - s.elapsed)))
          fun t ht => Nat.le_of_lt (hcalm t ht)
        split
        · exact hidle
        · split
          · exact keeps_actAt h (Nat.le_max_right ..) fun hs => keeps_join hs _ _
          · exact hidle

/-- A run has come from one state to another, turn by turn. -/
inductive Reaches (p : Pace) (c : Circumstances) (s₀ : State α ε) : State α ε → Prop where
  | start : Reaches p c s₀ s₀
  | turn {s s' : State α ε} (h : Reaches p c s₀ s) (next : s.next c p = .goOn s') :
      Reaches p c s₀ s'

theorem Reaches.spares (h : Reaches p c s₀ s) (hs : c.Spares before s₀.elapsed s₀.cancelled) :
    c.Spares before s.elapsed s.cancelled := by
  induction h with
  | start => exact hs
  | @turn s s' _ hnext ih =>
      have hkeeps := keeps_next ih p
      rw [hnext] at hkeeps
      exact hkeeps

theorem closes_finish (h : c.Spares before s.elapsed s.cancelled) (p : Pace) :
    c.Closes before (finish p c s).2.elapsed (finish p c s).2.cancelled := by
  induction s using Parallel.finish.induct p c with
  | case1 s s' hs ih =>
      have hkeeps := keeps_next h p
      rw [hs] at hkeeps
      rw [finish, hs]
      exact ih hkeeps
  | case2 s v s' hs =>
      have hkeeps := keeps_next h p
      rw [hs] at hkeeps
      rw [finish, hs]
      exact hkeeps

end Parallel

/-! ## One after another -/

namespace Sequential

variable {c : Circumstances} {before : Cancelled} {s s' : State α ε} {m : Move α ε}
  {f : Source α ε} {fetches rest : List (Source α ε)} {v : Verdict α ε} {time : Nat}

/-- What is handed to a fetch that is started. -/
def handed (c : Circumstances) (f : Source α ε) : String × Token := (f.name, c.scope)

/-- The ways in which a run comes to its end with a fetch, and others behind it. -/
inductive StopsAt (f : Source α ε) (rest : List (Source α ε)) : Verdict α ε → Prop where
  | failed {e : ε} (error : f.ending = .error e) :
      StopsAt f rest (.answered (.error (.source f.name e)))
  | crashed (crash : f.ending = .crash) : StopsAt f rest .crashed
  | late : StopsAt f rest (.answered (.ok (.unavailable (inOrder (f.name :: rest.map (·.name))))))
  | interrupted : StopsAt f rest (.answered (.error .interrupted))
  | dropped : StopsAt f rest .dropped

/-- One fetch of a run has been started. The run goes on with its value and nothing of its own
cancelled, or it ends there with its token cancelled. -/
def Move.Keeps (c : Circumstances) (before : Cancelled) (f : Source α ε) (rest : List (Source α ε))
    (started : List (String × Token)) : Move α ε → Prop
  | .goOn s => c.Spares before s.elapsed s.cancelled ∧ s.started = started ∧
      ∃ a, f.ending = .value a
  | .stop v s => c.Closes before s.elapsed s.cancelled ∧ s.started = started ∧ StopsAt f rest v

theorem keeps_close (h : c.Spares before s.elapsed s.cancelled) (hv : StopsAt f rest v) :
    (s.close c v).Keeps c before f rest s.started :=
  ⟨h.close, rfl, hv⟩

theorem keeps_actAt {act : State α ε → Move α ε} (h : c.Spares before s.elapsed s.cancelled)
    (hle : s.elapsed ≤ time)
    (hact : c.Spares before time (s.passTo c time).cancelled →
      (act (s.passTo c time)).Keeps c before f rest s.started) :
    (s.actAt c time act).Keeps c before f rest s.started := by
  unfold State.actAt
  rcases h.pass_or_drop hle with ⟨hd, hs⟩ | ⟨hd, hs⟩
  · rw [hd, if_neg Bool.false_ne_true]
    exact hact hs
  · rw [hd, if_pos rfl]
    exact keeps_close hs .dropped

theorem keeps_record (h : c.Spares before s.elapsed s.cancelled) (f : Source α ε)
    (rest : List (Source α ε)) : (s.record c f).Keeps c before f rest s.started := by
  unfold State.record
  cases hend : f.ending with
  | value a => exact ⟨h, rfl, a, hend⟩
  | error e => exact ⟨h.close, rfl, .failed hend⟩
  | crash => exact ⟨h.close, rfl, .crashed hend⟩

theorem keeps_idle {limit : Nat} (h : c.Spares before s.elapsed s.cancelled)
    (hle : s.elapsed ≤ limit) (hcalm : ∀ t, c.interruptAt = some t → s.elapsed ≤ t)
    (f : Source α ε) (rest : List (Source α ε)) :
    (s.idle c limit (f.name :: rest.map (·.name))).Keeps c before f rest s.started := by
  unfold State.idle
  have hlate : (s.actAt c limit fun s => s.close c (.answered (.ok (.unavailable
      (inOrder (f.name :: rest.map (·.name))))))).Keeps c before f rest s.started :=
    keeps_actAt h hle fun hs => keeps_close hs .late
  cases hi : c.interruptAt with
  | none => exact hlate
  | some i =>
      simp only
      split
      · exact keeps_actAt h (hcalm i hi) fun hs => keeps_close hs .interrupted
      · exact hlate

theorem keeps_fetch (h : c.Spares before s.elapsed s.cancelled) (f : Source α ε)
    (rest : List (Source α ε)) :
    (s.fetch c f rest).Keeps c before f rest (s.started ++ [handed c f]) := by
  unfold State.fetch
  -- The state in which the fetch has just been started.
  generalize hs' : ({ s with started := s.started ++ [(f.name, c.scope)] } : State α ε) = s'
  have hstarted : s.started ++ [handed c f] = s'.started := by rw [← hs']; rfl
  have h' : c.Spares before s'.elapsed s'.cancelled := by rw [← hs']; exact h
  rw [hstarted]
  simp only
  split
  · exact keeps_close h' .interrupted
  · rename_i hi
    have hcalm := Circumstances.interruptedBy_eq_false_iff.mp (Bool.eq_false_iff.mpr hi)
    have hidle := keeps_idle h' (Nat.le_max_left s'.elapsed c.deadline)
      (fun t ht => Nat.le_of_lt (hcalm t ht)) f rest
    split
    · exact hidle
    · rename_i time htime
      have hle : s'.elapsed ≤ time := by
        unfold State.endTime? at htime
        split at htime <;> cases htime
        exact Nat.le_add_right ..
      split
      · exact keeps_actAt h' hle fun hs => keeps_record hs f rest
      · exact hidle

/-- A run has come to a state in which only these fetches are left to make. -/
inductive Reaches (c : Circumstances) (fetches : List (Source α ε)) (s₀ : State α ε) :
    List (Source α ε) → State α ε → Prop where
  | start : Reaches c fetches s₀ fetches s₀
  | turn {f : Source α ε} {rest : List (Source α ε)} {s s' : State α ε}
      (h : Reaches c fetches s₀ (f :: rest) s) (next : s.fetch c f rest = .goOn s') :
      Reaches c fetches s₀ rest s'

theorem Reaches.spares {s₀ : State α ε} (h : Reaches c fetches s₀ rest s)
    (hs : c.Spares before s₀.elapsed s₀.cancelled) : c.Spares before s.elapsed s.cancelled := by
  induction h with
  | start => exact hs
  | @turn f rest s s' _ hnext ih =>
      have hkeeps := keeps_fetch ih f rest
      rw [hnext] at hkeeps
      exact hkeeps.1

/-- How far a run comes: all its fetches are made, or it ends with one of them, and none behind that
one has been started. -/
inductive Course (c : Circumstances) (started : List (String × Token)) :
    List (Source α ε) → List (String × Token) → Verdict α ε → Prop where
  | complete {fetches : List (Source α ε)} {values : Values α}
      (made : ∀ f ∈ fetches, ∃ a, f.ending = .value a) :
      Course c started fetches (started ++ fetches.map (handed c))
        (.answered (.ok (.complete values)))
  | stopped {done rest : List (Source α ε)} {f : Source α ε} {v : Verdict α ε}
      (made : ∀ g ∈ done, ∃ a, g.ending = .value a) (stops : StopsAt f rest v) :
      Course c started (done ++ f :: rest) (started ++ (done ++ [f]).map (handed c)) v

theorem Course.cons {started log : List (String × Token)} {a : α} (hf : f.ending = .value a)
    (h : Course c (started ++ [handed c f]) rest log v) : Course c started (f :: rest) log v := by
  have hmade : ∀ {gs : List (Source α ε)}, (∀ g ∈ gs, ∃ a, g.ending = .value a) →
      ∀ g ∈ f :: gs, ∃ a, g.ending = .value a := by
    intro gs hgs g hg
    rcases List.mem_cons.mp hg with rfl | hg
    · exact ⟨a, hf⟩
    · exact hgs g hg
  cases h with
  | complete made =>
      rw [List.append_assoc]
      exact .complete (hmade made)
  | stopped made stops =>
      rw [List.append_assoc]
      exact .stopped (hmade made) stops

theorem closes_finish (h : c.Spares before s.elapsed s.cancelled) :
    c.Closes before (finish c fetches s).2.elapsed (finish c fetches s).2.cancelled ∧
      Course c s.started fetches (finish c fetches s).2.started (finish c fetches s).1 := by
  induction fetches generalizing s with
  | nil =>
      refine ⟨h.close, ?_⟩
      have hcourse : Course c s.started [] (s.started ++ ([] : List (Source α ε)).map (handed c))
          (.answered (.ok (.complete s.values))) :=
        .complete fun _ hf => nomatch hf
      rwa [List.map_nil, List.append_nil] at hcourse
  | cons f rest ih =>
      have hkeeps := keeps_fetch h f rest
      unfold finish
      revert hkeeps
      cases s.fetch c f rest with
      | goOn s' =>
          rintro ⟨hs', hstarted, a, ha⟩
          obtain ⟨hcloses, hcourse⟩ := ih hs'
          rw [hstarted] at hcourse
          exact ⟨hcloses, hcourse.cons ha⟩
      | stop v s' =>
          rintro ⟨hs', hstarted, hv⟩
          refine ⟨hs', ?_⟩
          have hcourse : Course c s.started ([] ++ f :: rest)
              (s.started ++ ([] ++ [f]).map (handed c)) v :=
            .stopped (fun _ hg => nomatch hg) hv
          rw [hstarted]
          exact hcourse

theorem course_run (c : Circumstances) (fetches : List (Source α ε)) (before : Cancelled) :
    Course c [] fetches (run c fetches before).started (run c fetches before).verdict :=
  (closes_finish (s := .initial (c.cancelledAt 0 before)) (.start c before)).2

/-- Whatever a run hands out is its own token. -/
theorem Course.scope {started log : List (String × Token)} {entry : String × Token}
    (h : Course c started fetches log v) (he : entry ∈ log) :
    entry ∈ started ∨ entry.2 = c.scope := by
  have hmap : ∀ {gs : List (Source α ε)}, entry ∈ started ++ gs.map (handed c) →
      entry ∈ started ∨ entry.2 = c.scope := by
    intro gs hg
    rcases List.mem_append.mp hg with hg | hg
    · exact Or.inl hg
    · obtain ⟨f, _, rfl⟩ := List.mem_map.mp hg
      exact Or.inr rfl
  cases h with
  | complete => exact hmap he
  | stopped => exact hmap he

end Sequential

/-! ## Runs as they are asked for -/

/-- The name that is found stands behind names that are all different, and it is one of them or has
been seen before them. -/
theorem exists_of_firstRepeated? {seen names : List String} {name : String}
    (h : firstRepeated? seen names = some name) : ∃ first rest, names = first ++ name :: rest ∧
      first.Nodup ∧ (∀ n ∈ first, n ∉ seen) ∧ (name ∈ first ∨ name ∈ seen) := by
  induction names generalizing seen with
  | nil => cases h
  | cons n names ih =>
      unfold firstRepeated? at h
      split at h
      · rename_i hn
        cases h
        exact ⟨[], names, rfl, .nil, by simp, Or.inr hn⟩
      · rename_i hn
        obtain ⟨first, rest, rfl, hfirst, hnew, hname⟩ := ih h
        refine ⟨n :: first, rest, rfl, List.nodup_cons.mpr ⟨fun hm => ?_, hfirst⟩,
          fun m hm => ?_, ?_⟩
        · exact hnew n hm List.mem_cons_self
        · rcases List.mem_cons.mp hm with rfl | hm
          · exact hn
          · exact fun hs => hnew m hm (List.mem_cons_of_mem n hs)
        · -- What has been seen in between is the name at the head.
          rcases hname with hname | hname
          · exact Or.inl (List.mem_cons_of_mem n hname)
          · rcases List.mem_cons.mp hname with rfl | hname
            · exact Or.inl List.mem_cons_self
            · exact Or.inr hname

/-- What is cancelled at some moment while a run is under way. After its last turn, time may have
passed. -/
inductive During (c : Circumstances) (fetches : List (Source α ε)) (before : Cancelled) :
    Mode → Nat → Cancelled → Prop where
  | parallel {s : Parallel.State α ε} {time : Nat}
      (reached : Parallel.Reaches .standard c (.initial fetches (c.cancelledAt 0 before)) s)
      (le : s.elapsed ≤ time) : During c fetches before .parallel time (s.passTo c time).cancelled
  | sequential {rest : List (Source α ε)} {s : Sequential.State α ε} {time : Nat}
      (reached : Sequential.Reaches c fetches (.initial (c.cancelledAt 0 before)) rest s)
      (le : s.elapsed ≤ time) : During c fetches before .sequential time (s.passTo c time).cancelled

section Runs

variable {mode : Mode} {c : Circumstances} {fetches : List (Source α ε)} {before x : Cancelled}
  {t : Token} {time : Nat}

theorem During.contains (h : During c fetches before mode time x) (t : Token) :
    x.contains t = (c.cancelledAt time before).contains t := by
  cases h with
  | parallel reached le => exact (reached.spares (.start c before)).contains_pass le t
  | sequential reached le => exact (reached.spares (.start c before)).contains_pass le t

/-- In the end the token of a run counts as cancelled, and nothing else but for the caller. -/
theorem closes_aggregate (hn : (fetches.map (·.name)).Nodup) :
    c.Closes before (aggregate mode c fetches before).elapsed
      (aggregate mode c fetches before).cancelled := by
  cases mode with
  | sequential =>
      rw [aggregate_sequential hn]
      exact (Sequential.closes_finish (.start c before)).1
  | parallel =>
      rw [aggregate_parallel hn]
      exact Parallel.closes_finish (.start c before) .standard

theorem aggregate_refused {name : String}
    (h : firstRepeated? [] (fetches.map (·.name)) = some name) :
    aggregate mode c fetches before = .refusal c name before := by
  unfold aggregate
  rw [h]

theorem scope_of_started {handed : String × Token}
    (h : handed ∈ (aggregate mode c fetches before).started) :
    (fetches.map (·.name)).Nodup ∧ handed.2 = c.scope := by
  cases hr : firstRepeated? [] (fetches.map (·.name)) with
  | some name =>
      rw [aggregate_refused hr] at h
      cases h
  | none =>
      have hn := (firstRepeated?_eq_none_iff.mp hr).1
      refine ⟨hn, ?_⟩
      cases mode with
      | parallel =>
          rw [aggregate_parallel hn] at h
          obtain ⟨f, _, rfl⟩ := List.mem_map.mp h
          rfl
      | sequential =>
          rw [aggregate_sequential hn] at h
          rcases (Sequential.course_run c fetches before).scope h with h | h
          · cases h
          · exact h

end Runs

/-- A token that has not been cancelled itself counts as cancelled only with the one above it. -/
theorem contains_of_contains_child {x : Cancelled} {t : Token} {n : Nat} (h : t.child n ∉ x.tokens)
    (hc : x.contains (t.child n) = true) : x.contains t = true := by
  obtain ⟨u, hu, hcovers⟩ := List.any_eq_true.mp hc
  refine List.any_eq_true.mpr ⟨u, hu, ?_⟩
  rcases Token.covers_child_iff.mp hcovers with rfl | hcovers
  · exact absurd hu h
  · exact hcovers

/-- Tokens that are not those of a run: that of its caller, and those of other runs below it. -/
def Foreign (interrupt : Token) (run : Nat) (t : Token) : Prop :=
  t = interrupt ∨ ∃ other, other ≠ run ∧ t = interrupt.child other

theorem Foreign.covers {interrupt t : Token} {run : Nat} (h : Foreign interrupt run t) :
    interrupt.covers t = true ∧ (interrupt.child run).covers t = false := by
  rcases h with rfl | ⟨other, hne, rfl⟩
  · exact ⟨Token.covers_refl _, Token.not_child_covers _ _⟩
  · exact ⟨Token.covers_child_iff.mpr (Or.inr (Token.covers_refl _)),
      Token.not_child_covers_child (Ne.symm hne)⟩

/-- What a run under a token cancels and starts. -/
structure Scoped (interrupt : Token) (run : Nat) (c : Circumstances) (mode : Mode)
    (fetches : List (Source α ε)) (before : Cancelled) (report : Report α ε) : Prop where
  /-- However the run ends, the tokens that it has handed out are cancelled by then. -/
  closed : ∀ handed ∈ report.started, report.cancelled.contains handed.2 = true
  /-- While it is under way, they are cancelled only if that of the caller is. -/
  meanwhile : ∀ time x, During c fetches before mode time x →
    ∀ handed ∈ report.started, x.contains handed.2 = true → x.contains interrupt = true
  /-- Nothing but the caller's interruption cancels the token of the caller or of other runs. -/
  during : ∀ time x, During c fetches before mode time x → ∀ t, Foreign interrupt run t →
    x.contains t = (before.contains t || c.interruptedBy time)
  after : ∀ t, Foreign interrupt run t →
    report.cancelled.contains t = (before.contains t || c.interruptedBy report.elapsed)
  /-- A run in which a name stands twice starts nothing and reports the first that does. -/
  refused : ¬ (fetches.map (·.name)).Nodup → report.started = [] ∧
    ∃ first name rest, fetches.map (·.name) = first ++ name :: rest ∧ first.Nodup ∧
      name ∈ first ∧ report.verdict = .answered (.error (.duplicateName name))
  /-- One after another, no fetch is started behind the one with which the run ends. -/
  course : mode = .sequential → (fetches.map (·.name)).Nodup →
    Sequential.Course c [] fetches report.started report.verdict

/-- However a run ends, the tokens that it has handed out are cancelled by then. While it is under
way they are cancelled only if that of the caller is. The run cancels neither that one nor the
tokens of other runs below it. A run in which a name stands twice starts nothing and reports the
first that does, and a run that makes its fetches one after another starts none behind the one with
which it ends. That the token of the run is new is what `fresh` says. -/
theorem cancellation_scoped (interrupt : Token) (run deadline : Nat)
    (interruptAt dropAt : Option Nat) (mode : Mode) (fetches : List (Source α ε))
    (before : Cancelled) (fresh : interrupt.child run ∉ before.tokens) :
    let c := Circumstances.under interrupt run deadline interruptAt dropAt
    Scoped interrupt run c mode fetches before (aggregate mode c fetches before) := by
  intro c
  generalize hreport : aggregate mode c fetches before = report
  have hpassed : ∀ time t, Foreign interrupt run t →
      (c.cancelledAt time before).contains t = (before.contains t || c.interruptedBy time) := by
    intro time t ht
    rw [Circumstances.contains_cancelledAt, show c.interrupt.covers t = true from ht.covers.1,
      Bool.and_true]
  have hrefused : ∀ {name}, firstRepeated? [] (fetches.map (·.name)) = some name →
      report = .refusal c name before :=
    fun hr => hreport.symm.trans (aggregate_refused hr)
  constructor
  case closed =>
    intro handed hh
    rw [← hreport] at hh ⊢
    obtain ⟨hn, hscope⟩ := scope_of_started hh
    rw [closes_aggregate hn, hscope, Token.covers_refl, Bool.true_or]
  case meanwhile =>
    intro time x hx handed hh hc
    rw [← hreport] at hh
    have hchild : handed.2 = interrupt.child run := (scope_of_started hh).2
    rw [hchild, hx.contains, Circumstances.contains_cancelledAt, Bool.or_eq_true] at hc
    rw [hx.contains, hpassed time interrupt (Or.inl rfl), Bool.or_eq_true]
    rcases hc with hc | hc
    · exact Or.inl (contains_of_contains_child fresh hc)
    · exact Or.inr (Bool.and_eq_true_iff.mp hc).1
  case during =>
    intro time x hx t ht
    rw [hx.contains, hpassed time t ht]
  case after =>
    intro t ht
    cases hr : firstRepeated? [] (fetches.map (·.name)) with
    | some name =>
        rw [hrefused hr]
        exact hpassed 0 t ht
    | none =>
        rw [← hreport, closes_aggregate (firstRepeated?_eq_none_iff.mp hr).1,
          show c.scope.covers t = false from ht.covers.2, Bool.false_or, hpassed _ t ht]
  case refused =>
    intro hrepeated
    cases hr : firstRepeated? [] (fetches.map (·.name)) with
    | none => exact absurd (firstRepeated?_eq_none_iff.mp hr).1 hrepeated
    | some name =>
        obtain ⟨first, rest, he, hfirst, _, hname⟩ := exists_of_firstRepeated? hr
        rw [hrefused hr]
        exact ⟨rfl, first, name, rest, he, hfirst, by simpa using hname, rfl⟩
  case course =>
    intro hmode hn
    rw [← hreport, hmode, aggregate_sequential hn]
    exact Sequential.course_run c fetches before

/-- The second of three fetches fails in a run that makes them one after another, after another run
below the same token has ended. -/
theorem failing_scoped :
    let c := Circumstances.under (.root 0) 1 100 none none
    let fetches : List (Source Nat String) :=
      [⟨"account", .after 10, .value 1⟩, ⟨"bundles", .after 20, .error "gone"⟩,
        ⟨"invoices", .never, .crash⟩]
    let before := Cancelled.none.add ((Token.root 0).child 0)
    let report := aggregate .sequential c fetches before
    (Token.root 0).child 1 ∉ before.tokens ∧
      report.verdict = .answered (.error (.source "bundles" "gone")) ∧
      report.started = [("account", c.scope), ("bundles", c.scope)] ∧
      (∀ handed ∈ report.started, report.cancelled.contains handed.2 = true) ∧
      report.cancelled.contains (.root 0) = false ∧
      report.cancelled.contains ((Token.root 0).child 2) = false ∧
      Sequential.Course c [] fetches report.started report.verdict := by
  intro c fetches before report
  have hfresh : (Token.root 0).child 1 ∉ before.tokens := by decide
  have hreport : report = Sequential.run c fetches before :=
    aggregate_sequential (by decide) c before
  have hscoped := cancellation_scoped (.root 0) 1 100 none none .sequential fetches before hfresh
  refine ⟨hfresh, by rw [hreport]; rfl, by rw [hreport]; rfl, hscoped.closed, ?_, ?_,
    hscoped.course rfl (by decide)⟩
  · exact (hscoped.after _ (Or.inl rfl)).trans (by decide)
  · exact (hscoped.after _ (Or.inr ⟨2, by decide, rfl⟩)).trans (by decide)

end Billing.Fetch
