import Mathlib.Data.List.Induction
import Billing.Proofs.Service.Records

/-!
# Executions

A list of actions is an execution. What was read or announced on the way is looked up in the states
that the execution went through: the tags that a call noted, those that a run read, and the events
that a run announced. Whatever completes a waiter was announced by a run under its token.
-/

namespace Billing

/-- The tags that a call has just noted. -/
def Completion.Phase.notedTags? {α : Type} : Completion.Phase α → Option ControlTagSet
  | .noted tags => some tags
  | _ => none

/-- The run that an action lets take a step. -/
def Service.Action.run? : Service.Action → Option Nat
  | .stepRun n => some n
  | _ => none

namespace Service.System

open Completion (Desk Waiter settles)
open Pipeline (Publication Run Works)

variable {s : System} {a : Action} {as bs : List Action} {n : Nat}

/-! ## States on the way -/

theorem steps_concat (s : System) (as : List Action) (a : Action) :
    s.steps (as ++ [a]) = (s.steps as).step a := by
  simp [steps]

theorem steps_append (s : System) (as bs : List Action) :
    s.steps (as ++ bs) = (s.steps as).steps bs := by
  simp [steps]

/-- The first answer to a question along an execution. -/
def first? {β : Type} (s : System) (f : System → Option β) : List Action → Option β
  | [] => f s
  | a :: as => (f s).or ((s.step a).first? f as)

theorem first?_concat {β : Type} (s : System) (f : System → Option β) (as : List Action)
    (a : Action) :
    s.first? f (as ++ [a]) = (s.first? f as).or (f ((s.steps as).step a)) := by
  induction as generalizing s with
  | nil => rfl
  | cons b as ih =>
      show (f s).or ((s.step b).first? f (as ++ [a])) = _
      rw [ih, ← Option.or_assoc]
      rfl

theorem first?_concat_of_some {β : Type} {f : System → Option β} {x : β}
    (h : s.first? f as = some x) : s.first? f (as ++ [a]) = some x := by
  rw [first?_concat, h]
  rfl

theorem first?_append_of_some {β : Type} {f : System → Option β} {x : β}
    (h : s.first? f as = some x) : s.first? f (as ++ bs) = some x := by
  induction bs using List.reverseRecOn with
  | nil => rwa [List.append_nil]
  | append_singleton bs b ih =>
      rw [← List.append_assoc]
      exact first?_concat_of_some ih

/-- Whatever comes to hold along an execution comes to hold with one of its actions. -/
theorem exists_turning {p : System → Prop} (hs : ¬ p s) (h : p (s.steps as)) :
    ∃ past a rest, as = past ++ a :: rest ∧ ¬ p (s.steps past) ∧ p ((s.steps past).step a) := by
  induction as using List.reverseRecOn with
  | nil => exact absurd h hs
  | append_singleton as a ih =>
      by_cases hp : p (s.steps as)
      · obtain ⟨past, b, rest, rfl, hn, hb⟩ := ih hp
        exact ⟨past, b, rest ++ [a], by simp, hn, hb⟩
      · rw [steps_concat] at h
        exact ⟨as, a, [], rfl, hp, h⟩

theorem command_steps {j : Nat} {m : Submitted} (hm : s.commands[j]? = some m)
    (as : List Action) : ∃ stage, (s.steps as).commands[j]? = some { m with stage } ∧
      ∀ result run, m.stage = .done result run → stage = m.stage := by
  induction as using List.reverseRecOn with
  | nil => exact ⟨m.stage, hm, fun _ _ _ => rfl⟩
  | append_singleton as a ih =>
      obtain ⟨stage, hstage, hdone⟩ := ih
      obtain ⟨stage', hstage', hst⟩ := ((s.steps as).step_effect a).command hstage
      rw [steps_concat]
      refine ⟨stage', hstage', fun result run hd => ?_⟩
      rcases hst with hst | ⟨_, hadv⟩
      · exact hst.trans (hdone result run hd)
      · have hd' : stage = .done result run := (hdone result run hd).trans hd
        exact (hadv.of_done hd').trans (hdone result run hd)

theorem run?_steps {j : Nat} {m : Submitted} (hm : s.commands[j]? = some m)
    (hn : m.stage.run? = some n) (as : List Action) : ∃ m', (s.steps as).commands[j]? = some m' ∧
      m'.context = m.context ∧ m'.stage.run? = some n := by
  obtain ⟨stage, hm', hdone⟩ := command_steps hm as
  refine ⟨_, hm', rfl, ?_⟩
  cases hs : m.stage with
  | done result run =>
      rw [hs] at hn
      rw [hdone result run hs, hs]
      exact hn
  | _ =>
      rw [hs] at hn
      cases hn

theorem order_steps {r : Run} (hr : s.works.runs[n]? = some r) (as : List Action) :
    ∃ r', (s.steps as).works.runs[n]? = some r' ∧ r'.order = r.order := by
  induction as using List.reverseRecOn with
  | nil => exact ⟨r, hr, rfl⟩
  | append_singleton as a ih =>
      obtain ⟨r₁, hr₁, ho₁⟩ := ih
      obtain ⟨r₂, hr₂, ho₂⟩ := ((s.steps as).step_effect a).order hr₁
      rw [steps_concat]
      exact ⟨r₂, hr₂, ho₂.trans ho₁⟩

theorem ending?_eq_some_iff {i : Nat} {e : Completion.Ending Subscription} :
    s.ending? i = some e ↔ ∃ c t, s.desk.calls[i]? = some c ∧ c.phase = .ended e t := by
  unfold ending?
  cases s.desk.calls[i]? with
  | none => simp
  | some c => cases hp : c.phase <;> simp [hp]

/-- The tags that a call has just noted. -/
def notedTags? (s : System) (i : Nat) : Option ControlTagSet :=
  s.desk.calls[i]?.bind (·.phase.notedTags?)

/-- The tags that a run has read, as long as it still needs them. -/
def readTags? (s : System) (n : Nat) : Option ControlTagSet :=
  s.works.runs[n]?.bind (·.phase.readTags?)

/-! ## Announcements -/

/-- A run announces an event on the way. -/
def Announces (s : System) (as : List Action) (n : Nat) (e : DomainEvent) : Prop :=
  ∃ past rest, as = past ++ .stepRun n :: rest ∧ (s.steps past).works.announced? n = some e

theorem Announces.append {e : DomainEvent} (h : s.Announces as n e) (bs : List Action) :
    s.Announces (as ++ bs) n e := by
  obtain ⟨past, rest, rfl, he⟩ := h
  exact ⟨past, rest ++ bs, by simp, he⟩

/-- The events that a run announces on the way, in order. -/
def announcements (s : System) (n : Nat) : List Action → List DomainEvent
  | [] => []
  | a :: as =>
    (if a.run? = some n then (s.works.announced? n).toList else []) ++
      (s.step a).announcements n as

theorem announces_iff {e : DomainEvent} : s.Announces as n e ↔ e ∈ s.announcements n as := by
  induction as generalizing s with
  | nil =>
      constructor
      · rintro ⟨past, rest, he, _⟩
        cases past <;> cases he
      · intro h
        cases h
  | cons a as ih =>
      rw [announcements, List.mem_append, ← ih]
      constructor
      · rintro ⟨past, rest, he, hann⟩
        cases past with
        | nil =>
            cases he
            rw [Action.run?, if_pos rfl, Option.mem_toList]
            exact Or.inl hann
        | cons b past =>
            cases he
            exact Or.inr ⟨past, rest, rfl, hann⟩
      · rintro (hmem | ⟨past, rest, rfl, hann⟩)
        · split at hmem
          · rename_i hrun
            have ha : a = .stepRun n := by
              cases a <;> cases hrun
              rfl
            subst ha
            rw [Option.mem_toList] at hmem
            exact ⟨[], as, rfl, hmem⟩
          · cases hmem
        · exact ⟨a :: past, rest, rfl, hann⟩

/-- A run of the token has announced the event. -/
def AnnouncedBy (s : System) (as : List Action) (p : Publication) (n : Nat) : Prop :=
  s.Announces as n p.event ∧ ∃ r, (s.steps as).works.runs[n]? = some r ∧ r.order.token = p.token

/-- An event that a run has announced is the next to be brought to the desk, and it completes the
waiter that a call has there. -/
structure Completes (s : System) (past : List Action) (p : Publication) (n i : Nat)
    (v : Waiter) : Prop where
  announced : s.AnnouncedBy past p n
  next : (s.steps past).works.published.head? = some p
  holds : (s.steps past).desk.Holds i v
  token : p.token = v.token
  settles : settles v.tags p.event = true
  before : v.number ∉ (s.steps past).desk.registry.completed
  after : v.number ∈ ((s.steps past).step .deliver).desk.registry.completed

/-- Whatever is announced, and whatever has completed a waiter, comes from a run of its token. -/
structure Sourced (s : System) (as : List Action) : Prop where
  published : ∀ {p : Publication}, p ∈ (s.steps as).works.published → ∃ n, s.AnnouncedBy as p n
  completed : ∀ {i : Nat} {v : Waiter}, (s.steps as).desk.Holds i v →
    v.number ∈ (s.steps as).desk.registry.completed →
      ∃ past rest p n, as = past ++ .deliver :: rest ∧ s.Completes past p n i v

theorem announced?_of_mem_news {w : Works} {r : Run} {p : Publication}
    (hm : w.mover? n = some r) (hp : p ∈ r.news w) :
    w.announced? n = some p.event ∧ r.order.token = p.token := by
  obtain ⟨e, he, rfl⟩ := List.mem_map.mp hp
  rw [Option.mem_toList] at he
  exact ⟨by rw [Works.announced?, hm]; exact he, rfl⟩

theorem AnnouncedBy.concat {p : Publication} (h : s.AnnouncedBy as p n) (a : Action) :
    s.AnnouncedBy (as ++ [a]) p n := by
  obtain ⟨hann, r, hr, hk⟩ := h
  obtain ⟨r', hr', ho⟩ := order_steps hr [a]
  refine ⟨hann.append [a], r', ?_, by rw [ho]; exact hk⟩
  rw [steps_append]
  exact hr'

theorem Sourced.concat (h : s.Sourced as) (hs : (s.steps as).Sound) (a : Action) :
    s.Sourced (as ++ [a]) := by
  have he := (s.steps as).step_effect a
  constructor
  · intro p hp
    rw [steps_concat] at hp
    rcases he.publication hp with hp | ⟨n, r, hstep, hp⟩
    · obtain ⟨n, hn⟩ := h.published hp
      exact ⟨n, hn.concat a⟩
    · obtain ⟨hann, hk⟩ := announced?_of_mem_news hstep.mover hp
      refine ⟨n, ⟨as, [], by rw [hstep.action], hann⟩, r.next (s.steps as).works, ?_, hk⟩
      rw [steps_concat]
      exact hstep.run
  · intro i v hv hn
    rw [steps_concat] at hv hn
    rcases he.holds hv with hheld | hnew
    · by_cases hbefore : v.number ∈ (s.steps as).desk.registry.completed
      · obtain ⟨past, rest, p, n, rfl, hc⟩ := h.completed hheld hbefore
        exact ⟨past, rest ++ [a], p, n, by simp, hc⟩
      · rcases hs.posted.completed_next he hheld hn with hn' | ⟨p, rest, rfl, hp, htok, hset⟩
        · exact absurd hn' hbefore
        · obtain ⟨n, hann⟩ := h.published (hp ▸ List.mem_cons_self)
          exact ⟨as, [], p, n, rfl, hann, by rw [hp]; rfl, hheld, htok, hset, hbefore, hn⟩
    · -- A waiter that has just been made has not been completed.
      have := hs.posted.lt_made he hn
      omega

theorem sourced (settings : Config.Settings) (hash : CorrelationToken → UInt64) (now : Instant)
    (as : List Action) : (System.opened settings hash now).Sourced as := by
  induction as using List.reverseRecOn with
  | nil =>
      constructor
      · intro p hp
        cases hp
      · rintro i v ⟨c, hc, _⟩
        cases hc
  | append_singleton as a ih => exact ih.concat ((Sound.opened settings hash now).steps as) a

/-! ## What runs read -/

/-- A run that has left its queue follows the tags that it read first; before, it has read
nothing. -/
structure Readings (s : System) (as : List Action) : Prop where
  runs : ∀ {n : Nat} {r : Run}, (s.steps as).works.runs[n]? = some r →
    r.phase = .queued ∧ s.first? (·.readTags? n) as = none ∨
      r.phase ≠ .queued ∧ ∃ tags, s.first? (·.readTags? n) as = some tags ∧
        r.phase.Follows r.order tags
  absent : ∀ {n : Nat}, (s.steps as).works.runs.length ≤ n → s.first? (·.readTags? n) as = none

theorem readTags?_of_run {r : Run} (hr : s.works.runs[n]? = some r) :
    s.readTags? n = r.phase.readTags? := by
  rw [readTags?, hr]
  rfl

theorem Stocked.provided (h : s.Stocked) {r : Run} (hr : s.works.runs[n]? = some r) :
    r.phase.Provided r.order s.works.books.store := by
  cases hp : r.phase with
  | queued => exact h.billed hr
  | paying t i => exact h.works.held hr (by rw [hp]; rfl)
  | _ => trivial

theorem Readings.concat (h : s.Readings as) (hs : (s.steps as).Stocked) (a : Action) :
    s.Readings (as ++ [a]) := by
  have he := (s.steps as).step_effect a
  constructor
  · intro n r hr
    rw [steps_concat] at hr
    rw [first?_concat, readTags?_of_run hr]
    rcases he.run_before hr with ⟨r', hr', _⟩ | ⟨hn, j, m, rd, changed, _, _, rfl, _⟩
    · rcases he.run hr' with hsame | hstep
      · rw [hr] at hsame
        cases hsame
        rcases h.runs hr' with ⟨hq, hnone⟩ | ⟨hq, tags, htags, hf⟩
        · exact Or.inl ⟨hq, by rw [hnone, hq]; rfl⟩
        · exact Or.inr ⟨hq, tags, by rw [htags]; rfl, hf⟩
      · have hnext := hstep.run
        rw [hr] at hnext
        cases hnext
        refine Or.inr ⟨Pipeline.Phase.step_ne_queued _, ?_⟩
        rcases h.runs hr' with ⟨hq, hnone⟩ | ⟨hq, tags, htags, hf⟩
        · -- The run leaves its queue with the tags of its account.
          obtain ⟨b, hb⟩ := hs.billed hr'
          have hb : (s.steps as).works.books.store.account? r'.order.account = some b := hb
          simp only [hnone, Run.next, hq, Pipeline.Phase.step, hb]
          exact ⟨b.tags, rfl, rfl⟩
        · refine ⟨tags, by rw [htags]; rfl, ?_⟩
          exact Pipeline.Phase.step_follows _ hf (hs.provided hr') fun hq' => absurd hq' hq
    · exact Or.inl ⟨rfl, by rw [h.absent (Nat.le_of_eq hn.symm)]; rfl⟩
  · intro n hn
    rw [steps_concat] at hn
    have hnone : ((s.steps as).step a).works.runs[n]? = none := List.getElem?_eq_none hn
    have hlen : (s.steps as).works.runs.length ≤ n := by
      refine Nat.le_of_not_lt fun hlt => ?_
      obtain ⟨r, hr, _⟩ := he.order (List.getElem?_eq_getElem hlt)
      rw [hnone] at hr
      cases hr
    rw [first?_concat, h.absent hlen, readTags?, hnone]
    rfl

theorem readings (settings : Config.Settings) (hash : CorrelationToken → UInt64) (now : Instant)
    (as : List Action) (hf : ((System.opened settings hash now).steps as).Supplied) :
    (System.opened settings hash now).Readings as := by
  induction as using List.reverseRecOn with
  | nil => exact ⟨(fun h => nomatch h), fun _ => rfl⟩
  | append_singleton as a ih =>
      rw [steps_concat] at hf
      exact (ih hf.of_step).concat ((Stocked.opened settings hash now).steps hf.of_step) a

/-! ## No interruption -/

/-- Nobody is interrupted before the service shuts down. -/
structure Calm (s : System) : Prop where
  closing : s.closing = none
  calls : ∀ {j : Nat} {c : Completion.Call Subscription}, s.desk.calls[j]? = some c →
    c.interrupted = false

theorem closing_step (s : System) (ha : a ≠ .shutDown) : (s.step a).closing = s.closing := by
  cases a with
  | submit x completing timeout c =>
      simp only [step]
      split <;> rfl
  | start i =>
      simp only [step]
      split <;> rfl
  | work i =>
      simp only [step]
      split
      · split <;> rfl
      · rfl
  | conclude i =>
      simp only [step]
      split
      · split <;> rfl
      · rfl
  | deliver =>
      simp only [step]
      split <;> rfl
  | shutDown => exact absurd rfl ha
  | pass moment =>
      simp only [step]
      split
      · rfl
      · simp only [passTo]
        split <;> split <;> rfl
  | _ => rfl

theorem Calm.step (h : s.Calm) (ha : a ≠ .shutDown) : (s.step a).Calm where
  closing := (closing_step s ha).trans h.closing
  calls {j c} hc := by
    have he := s.step_effect a
    rcases he.call_before hc with ⟨c', hc'⟩ | ⟨_, hi⟩
    · obtain ⟨c'', hc'', _, hi, _⟩ := he.call hc'
      rw [hc] at hc''
      cases hc''
      refine Bool.eq_false_iff.mpr fun ht => ?_
      rcases hi ht with hi | hi | hi
      · rw [h.calls hc'] at hi
        cases hi
      · exact hi h.closing
      · exact ha hi
    · exact Bool.eq_false_iff.mpr fun ht => hi ht h.closing

theorem Calm.steps (h : s.Calm) (ha : .shutDown ∉ as) : (s.steps as).Calm := by
  induction as generalizing s with
  | nil => exact h
  | cons a as ih =>
      rw [List.mem_cons, not_or] at ha
      exact ih (h.step fun he => ha.1 he.symm) ha.2

end Service.System

end Billing
