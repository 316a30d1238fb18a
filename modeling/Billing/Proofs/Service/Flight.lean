import Billing.Proofs.Service.Executions

/-!
# Commands in flight

A command arrives with a call that is to wait for its completion. It is followed here through any
execution, from whatever happened before it arrived to whatever happens afterwards.
-/

namespace Billing.Service

open Completion (Call CallResult Phase Waiter)
open Pipeline (Run)

/-! ## Flights -/

/-- A command that arrives with a call for its completion, and all that happens before and after. -/
structure Flight where
  settings : Config.Settings
  hash : CorrelationToken → UInt64
  opening : Instant
  /-- What happened before the command arrived. -/
  before : List Action
  context : Completion.CallContext
  /-- The longest wait that is asked for, in seconds. -/
  timeout : Nat
  command : Command
  /-- What happens after the command has arrived, in any order. -/
  after : List Action

namespace Flight

/-- The service as it was opened. -/
def opened (f : Flight) : System := .opened f.settings f.hash f.opening

/-- The service when the command arrives. -/
def arrival (f : Flight) : System := f.opened.steps f.before

/-- The number of the command and of its call. -/
def number (f : Flight) : Nat := f.arrival.commands.length

/-- All that has happened once this has happened after the arrival. -/
def upTo (f : Flight) (past : List Action) : List Action :=
  f.before ++ .submit f.context true f.timeout f.command :: past

/-- The service once this has happened after the arrival. -/
def since (f : Flight) (past : List Action) : System := f.opened.steps (f.upTo past)

/-- The service at the end of the flight. -/
def final (f : Flight) : System := f.since f.after

/-- The tags that the call noted before its command ran. -/
def notedTags? (f : Flight) (past : List Action) : Option ControlTagSet :=
  f.opened.first? (·.notedTags? f.number) (f.upTo past)

/-- The tags that a run read. -/
def readTags? (f : Flight) (past : List Action) (n : Nat) : Option ControlTagSet :=
  f.opened.first? (·.readTags? n) (f.upTo past)

/-- The answer of the call, if it has been given. -/
def answer? (f : Flight) : Option (CallResult Subscription) :=
  match f.final.ending? f.number with
  | some (.answered result) => some result
  | _ => none

/-- The command was carried out and took effect at once; it started this run. -/
def Succeeded (f : Flight) (value : Subscription) (n : Nat) : Prop :=
  ∃ m, f.final.commands[f.number]? = some m ∧ m.stage = .done (.ok (.immediate value)) (some n)

/-- No other command so far bears the token. -/
def Unshared (f : Flight) (past : List Action) : Prop :=
  ∀ j m, (f.since past).commands[j]? = some m → m.context.token = f.context.token → j = f.number

variable {f : Flight} {past rest : List Action} {a : Action} {n : Nat}

theorem upTo_append (f : Flight) (past rest : List Action) :
    f.upTo (past ++ rest) = f.upTo past ++ rest := by
  simp [upTo]

theorem since_append (f : Flight) (past rest : List Action) :
    f.since (past ++ rest) = (f.since past).steps rest := by
  rw [since, upTo_append, System.steps_append]
  rfl

theorem since_concat (f : Flight) (past : List Action) (a : Action) :
    f.since (past ++ [a]) = (f.since past).step a := since_append f past [a]

theorem notedTags?_concat (f : Flight) (past : List Action) (a : Action) :
    f.notedTags? (past ++ [a]) =
      (f.notedTags? past).or (((f.since past).step a).notedTags? f.number) := by
  rw [notedTags?, upTo_append, System.first?_concat]
  rfl

theorem notedTags?_append_of_some (rest : List Action) {tags : ControlTagSet}
    (h : f.notedTags? past = some tags) : f.notedTags? (past ++ rest) = some tags := by
  rw [notedTags?, upTo_append]
  exact System.first?_append_of_some h

theorem readTags?_append_of_some (rest : List Action) {tags : ControlTagSet}
    (h : f.readTags? past n = some tags) : f.readTags? (past ++ rest) n = some tags := by
  rw [readTags?, upTo_append]
  exact System.first?_append_of_some h

theorem sound (f : Flight) (past : List Action) : (f.since past).Sound :=
  (System.Sound.opened f.settings f.hash f.opening).steps _

theorem sourced (f : Flight) (past : List Action) : f.opened.Sourced (f.upTo past) :=
  System.sourced f.settings f.hash f.opening _

theorem stocked (f : Flight) (h : (f.since past).Supplied) : (f.since past).Stocked :=
  (System.Stocked.opened f.settings f.hash f.opening).steps h

theorem readings (f : Flight) (h : (f.since past).Supplied) :
    f.opened.Readings (f.upTo past) :=
  System.readings f.settings f.hash f.opening _ h

theorem Unshared.of_append (h : f.Unshared (past ++ rest)) : f.Unshared past := by
  intro j m hm ht
  obtain ⟨stage, hm', _⟩ := System.command_steps hm rest
  rw [← since_append] at hm'
  exact h j _ hm' ht

theorem Unshared.before (h : f.Unshared f.after) (hpast : f.after = past ++ rest) :
    f.Unshared past := by
  rw [hpast] at h
  exact h.of_append

theorem supplied_of_append (h : (f.since (past ++ rest)).Supplied) : (f.since past).Supplied := by
  rw [since_append] at h
  exact h.of_steps

theorem supplied_before (h : f.final.Supplied) (hpast : f.after = past ++ rest) :
    (f.since past).Supplied := by
  rw [final, hpast] at h
  exact supplied_of_append h

/-! ## Where a flight stands -/

/-- How the phase of the call, the stage of the command and the noted tags belong together. -/
def Stands (noted : Option ControlTagSet) : Phase Subscription → Stage → Prop
  | .arrived, stage => stage = .reading ∧ noted = none
  | .noted tags, stage => stage = .reading ∧ noted = some tags
  | .running none, _ => False
  | .running (some w), _ => noted = some w.tags
  | .waiting w value _, stage =>
    noted = some w.tags ∧ ∃ run, stage = .done (.ok (.immediate value)) run
  | .ended (.answered (.error _)) _, stage =>
    ∀ value run, stage ≠ .done (.ok (.immediate value)) run
  | .ended _ _, _ => True

/-- The call and the command of a flight. -/
structure Status (f : Flight) (past : List Action) (c : Call Subscription) (m : Submitted) :
    Prop where
  call : (f.since past).desk.calls[f.number]? = some c
  command : (f.since past).commands[f.number]? = some m
  asked : c.asked = (f.context, true, f.timeout)
  same : m.command = f.command ∧ m.context = f.context
  stands : Stands (f.notedTags? past) c.phase m.stage

theorem notedTags?_of_call {s : System} {i : Nat} {c : Call Subscription}
    (h : s.desk.calls[i]? = some c) : s.notedTags? i = c.phase.notedTags? := by
  rw [System.notedTags?, h]
  rfl

theorem first?_notedTags?_of_none {s : System} {as : List Action} {i : Nat}
    (h : (s.steps as).desk.calls[i]? = none) : s.first? (·.notedTags? i) as = none := by
  induction as using List.reverseRecOn with
  | nil =>
      have h : s.desk.calls[i]? = none := h
      show s.notedTags? i = none
      rw [System.notedTags?, h]
      rfl
  | append_singleton as a ih =>
      rw [System.steps_concat] at h
      have hn : (s.steps as).desk.calls[i]? = none := by
        cases hc : (s.steps as).desk.calls[i]? with
        | none => rfl
        | some c =>
            obtain ⟨c', hc', _⟩ := ((s.steps as).step_effect a).call hc
            rw [h] at hc'
            cases hc'
      rw [System.first?_concat, ih hn, System.notedTags?, h]
      rfl

theorem letsRun_iff {s : System} {i : Nat} :
    s.letsRun i = true ↔ ∃ c w, s.desk.calls[i]? = some c ∧ c.phase = .running w := by
  unfold System.letsRun
  cases s.desk.calls[i]? with
  | none => simp
  | some c => cases hp : c.phase <;> simp [hp]

theorem status_nil (f : Flight) : ∃ c m, f.Status [] c m ∧ c.phase = .arrived := by
  have hlen : f.arrival.desk.calls.length = f.number :=
    ((System.Sound.opened f.settings f.hash f.opening).steps f.before).posted.length
  have hs : f.since [] = f.arrival.step (.submit f.context true f.timeout f.command) :=
    System.steps_concat _ _ _
  have hcommand : (f.since []).commands[f.number]? =
      some ⟨f.command, f.context, .reading⟩ := by
    rw [hs]
    simp only [System.step]
    split <;> exact getElem?_concat_eq_some_iff.mpr (Or.inr ⟨rfl, rfl⟩)
  obtain ⟨b, hcall⟩ : ∃ b, (f.since []).desk.calls[f.number]? =
      some ⟨f.context, true, f.timeout, b, .arrived⟩ := by
    have hnew : (f.arrival.desk.step (.arrive f.context true f.timeout)).calls[f.number]? =
        some ⟨f.context, true, f.timeout, false, .arrived⟩ :=
      getElem?_concat_eq_some_iff.mpr (Or.inr ⟨hlen.symm, rfl⟩)
    rw [hs]
    simp only [System.step]
    split
    · obtain ⟨b, hb, _⟩ := (Completion.Desk.alike_interrupt trivial _).calls hnew
      exact ⟨b, hb⟩
    · exact ⟨false, hnew⟩
  refine ⟨_, _, ⟨hcall, hcommand, rfl, ⟨rfl, rfl⟩, rfl, ?_⟩, rfl⟩
  have hnone : f.arrival.desk.calls[f.number]? = none :=
    List.getElem?_eq_none (Nat.le_of_eq hlen)
  rw [notedTags?, upTo, System.first?_concat, first?_notedTags?_of_none hnone]
  have hn := notedTags?_of_call hcall
  rw [hs] at hn
  exact hn

theorem Status.arrived {c : Call Subscription} {m : Submitted} (h : f.Status [] c m) :
    c.phase = .arrived := by
  obtain ⟨c', _, h', hp⟩ := f.status_nil
  have hc := h'.call
  rw [h.call] at hc
  cases hc
  exact hp

theorem stage_of_not_running {s : System} {w : Pipeline.Works} {i : Nat} {c : Call Subscription}
    {m : Submitted}
    {stage : Stage} (hc : s.desk.calls[i]? = some c) (hp : ∀ v, c.phase ≠ .running v)
    (hst : stage = m.stage ∨ s.letsRun i = true ∧
      m.command.Advance m.context s.works m.stage stage w) : stage = m.stage := by
  rcases hst with hst | ⟨hl, _⟩
  · exact hst
  · obtain ⟨c', v, hc', hv⟩ := letsRun_iff.mp hl
    rw [hc] at hc'
    cases hc'
    exact absurd hv (hp v)

theorem Stands.ended_ok {noted : Option ControlTagSet} {o : Completion.Outcome Subscription}
    {time : Nat} {stage : Stage} : Stands noted (.ended (.answered (.ok o)) time) stage := trivial

theorem Stands.dropped {noted : Option ControlTagSet} {time : Nat} {stage : Stage} :
    Stands noted (.ended .dropped time) stage := trivial

/-- A call that stays in its phase lets only a running command go on. -/
theorem Stands.stay {noted : Option ControlTagSet} {p : Phase Subscription} {stage stage' : Stage}
    (h : Stands noted p stage) (hst : (∀ v, p ≠ .running v) → stage' = stage) :
    Stands (noted.or p.notedTags?) p stage' := by
  cases p with
  | arrived =>
      rw [hst fun _ hv => nomatch hv]
      obtain ⟨hs, hn⟩ := h
      exact ⟨hs, by rw [hn]; rfl⟩
  | noted tags =>
      rw [hst fun _ hv => nomatch hv]
      obtain ⟨hs, hn⟩ := h
      exact ⟨hs, by rw [hn]; rfl⟩
  | running waiter =>
      cases waiter with
      | none => exact h
      | some w =>
          have hn : noted = some w.tags := h
          show noted.or none = some w.tags
          rw [hn]
          rfl
  | waiting w value deadline =>
      rw [hst fun _ hv => nomatch hv]
      obtain ⟨hn, hs⟩ := h
      exact ⟨by rw [hn]; rfl, hs⟩
  | ended e time =>
      rw [hst fun _ hv => nomatch hv]
      cases e with
      | dropped => trivial
      | answered result =>
          cases result with
          | error e => exact h
          | ok o => trivial

theorem concluded {s : System} {i : Nat} {m : Submitted}
    {result : Except DomainError (Executed Subscription)}
    (hx : s.Moves a (.happening (.conclude i result))) (hm : s.commands[i]? = some m) :
    ∃ run, m.stage = .done result run := by
  cases hx with
  | turn hb =>
      cases hb with
      | conclude hm' hst =>
          rw [hm] at hm'
          cases hm'
          exact ⟨_, hst⟩

theorem Stands.move {s : System} {c : Call Subscription} {m : Submitted} {stage : Stage} {i : Nat}
    {noted : Option ControlTagSet} {p : Phase Subscription} {x : Completion.Move Subscription}
    (h : Stands noted c.phase m.stage) (hm : s.commands[i]? = some m) (hx : s.Moves a x)
    (ha : c.After s.desk i x p) (hcomp : c.completing = true)
    (hst : (∀ v, c.phase ≠ .running v) → stage = m.stage)
    (hdone : ∀ result run, m.stage = .done result run → stage = m.stage) :
    Stands (noted.or p.notedTags?) p stage := by
  cases ha with
  | same => exact h.stay hst
  | noted hb =>
      rw [hb] at h hst
      obtain ⟨hs, hn⟩ := h
      exact ⟨(hst fun _ hv => nomatch hv).trans hs, by rw [hn]; rfl⟩
  | free hb hf =>
      rw [hcomp] at hf
      cases hf
  | enlisted hb =>
      rw [hb] at h
      obtain ⟨_, hn⟩ := h
      show noted.or none = some _
      rw [hn]
      rfl
  | failed hb =>
      have hs : stage = .reading := by
        rcases hb with hb | ⟨tags, hb⟩
        · rw [hb] at h hst
          exact (hst fun _ hv => nomatch hv).trans h.1
        · rw [hb] at h hst
          exact (hst fun _ hv => nomatch hv).trans h.1
      intro value run hv
      rw [hs] at hv
      cases hv
  | refused hb =>
      obtain ⟨run, hs⟩ := concluded hx hm
      intro value run' hv
      rw [hdone _ _ hs, hs] at hv
      cases hv
  | direct => exact .ended_ok
  | waits hb =>
      rw [hb] at h
      have hn : noted = some _ := h
      obtain ⟨run, hs⟩ := concluded hx hm
      exact ⟨by rw [hn]; rfl, run, (hdone _ _ hs).trans hs⟩
  | hasty => exact .ended_ok
  | answered => exact .ended_ok
  | dropped => exact .dropped

theorem status_concat {c : Call Subscription} {m : Submitted} (h : f.Status past c m)
    (a : Action) : ∃ c' m', f.Status (past ++ [a]) c' m' := by
  have he := (f.since past).step_effect a
  obtain ⟨c', hc', hasked, _, hp⟩ := he.call h.call
  obtain ⟨stage, hm', hst⟩ := he.command h.command
  have hrun : (∀ v, c.phase ≠ .running v) → stage = m.stage := fun hv =>
    stage_of_not_running h.call hv hst
  have hdone : ∀ result run, m.stage = .done result run → stage = m.stage := by
    intro result run hd
    rcases hst with hst | ⟨_, hadv⟩
    · exact hst
    · exact hadv.of_done hd
  refine ⟨c', { m with stage }, ?_, ?_, hasked.trans h.asked, h.same, ?_⟩
  · rw [since_concat]
    exact hc'
  · rw [since_concat]
    exact hm'
  · rw [notedTags?_concat, notedTags?_of_call hc']
    rcases hp with ⟨hp, _⟩ | ⟨x, hx, _, ha⟩
    · rw [hp]
      exact h.stands.stay hrun
    · exact h.stands.move h.command hx ha (congrArg (fun x => x.2.1) h.asked) hrun hdone

theorem status (f : Flight) (past : List Action) : ∃ c m, f.Status past c m := by
  induction past using List.reverseRecOn with
  | nil =>
      obtain ⟨c, m, h, _⟩ := f.status_nil
      exact ⟨c, m, h⟩
  | append_singleton past a ih =>
      obtain ⟨c, m, h⟩ := ih
      exact status_concat h a

/-! ## The answer -/

/-- How a call is answered whose command was carried out and took effect at once. -/
inductive AnsweredAt (f : Flight) (past : List Action) (c : Call Subscription)
    (value : Subscription) : Completion.Outcome Subscription → Prop where
  | hasty {w : Waiter} {o : Completion.Outcome Subscription} (before : c.phase = .running (some w))
      (verdict : c.Verdict (f.since past).desk.registry w value
        (c.patience (f.since past).desk.maxWait = 0) o) : AnsweredAt f past c value o
  | waited {w : Waiter} {deadline : Nat} {a : Action} {x : Completion.Move Subscription}
      {o : Completion.Outcome Subscription} (before : c.phase = .waiting w value deadline)
      (moves : (f.since past).Moves a x)
      (verdict : c.Verdict (f.since past).desk.registry w value
        (deadline ≤ (f.since past).desk.now ∨ ∃ moment, x = .pass moment ∧ deadline < moment) o) :
      AnsweredAt f past c value o

variable {value : Subscription} {result : CallResult Subscription}

theorem ending?_of_answer? (h : f.answer? = some result) :
    f.final.ending? f.number = some (.answered result) := by
  unfold answer? at h
  split at h
  · rename_i hr
    cases h
    exact hr
  · cases h

theorem Succeeded.stage (h : f.Succeeded value n) (hpast : f.after = past ++ rest)
    {c : Call Subscription} {m : Submitted} (hst : f.Status past c m)
    {r : Except DomainError (Executed Subscription)} {run : Option Nat}
    (hd : m.stage = .done r run) : r = .ok (.immediate value) ∧ run = some n := by
  obtain ⟨m', hm', hs'⟩ := h
  obtain ⟨stage, hm, hdone⟩ := System.command_steps hst.command rest
  rw [← since_append, ← hpast] at hm
  have hm' : (f.since f.after).commands[f.number]? = some m' := hm'
  rw [hm] at hm'
  cases hm'
  have hs' : stage = _ := hs'
  rw [hdone _ _ hd, hd] at hs'
  cases hs'
  exact ⟨rfl, rfl⟩

theorem Succeeded.answer_ok (h : f.Succeeded value n) (ha : f.answer? = some result) :
    ∃ o, result = .ok o := by
  obtain ⟨m', hm', hs'⟩ := h
  obtain ⟨c, m, hst⟩ := f.status f.after
  obtain ⟨c', t, hc', hp⟩ := System.ending?_eq_some_iff.mp (ending?_of_answer? ha)
  have hc : f.final.desk.calls[f.number]? = some c := hst.call
  have hm : f.final.commands[f.number]? = some m := hst.command
  rw [hc] at hc'
  cases hc'
  rw [hm] at hm'
  cases hm'
  cases result with
  | ok o => exact ⟨o, rfl⟩
  | error e =>
      have hstands := hst.stands
      rw [hp] at hstands
      exact absurd hs' (hstands value (some n))

/-- A call that has been answered was answered by one move. -/
theorem exists_answering (ha : f.answer? = some result) :
    ∃ past a rest c m x t, f.after = past ++ a :: rest ∧ f.Status past c m ∧
      (∀ t, c.phase ≠ .ended (.answered result) t) ∧ (f.since past).Moves a x ∧
        c.After (f.since past).desk f.number x (.ended (.answered result) t) := by
  have hstart : ¬ (f.since []).ending? f.number = some (.answered result) := by
    intro h
    obtain ⟨c, t, hc, hp⟩ := System.ending?_eq_some_iff.mp h
    obtain ⟨c', m, hst⟩ := f.status []
    rw [hst.call] at hc
    cases hc
    rw [hst.arrived] at hp
    cases hp
  have hend : ((f.since []).steps f.after).ending? f.number = some (.answered result) := by
    rw [← since_append]
    exact ending?_of_answer? ha
  obtain ⟨past, a, rest, hpast, hn, hturn⟩ := System.exists_turning
    (p := fun s => s.ending? f.number = some (.answered result)) hstart hend
  rw [← since_append, List.nil_append] at hn hturn
  obtain ⟨c, m, hst⟩ := f.status past
  obtain ⟨c', hc', _, _, hp⟩ := ((f.since past).step_effect a).call hst.call
  obtain ⟨c'', t, hc'', hended⟩ := System.ending?_eq_some_iff.mp hturn
  rw [hc'] at hc''
  cases hc''
  rw [hended] at hp
  have hne : ∀ t, c.phase ≠ .ended (.answered result) t := fun t ht =>
    hn (System.ending?_eq_some_iff.mpr ⟨c, t, hst.call, ht⟩)
  rcases hp with ⟨hp, _⟩ | ⟨x, hx, _, hafter⟩
  · exact absurd hp.symm (hne t)
  · exact ⟨past, a, rest, c, m, x, t, hpast, hst, hne, hx, hafter⟩

/-- The call was answered at some point, by what it found there. -/
theorem exists_answer (hs : f.Succeeded value n) (ha' : f.answer? = some result) :
    ∃ past rest c m o, f.after = past ++ rest ∧ f.Status past c m ∧
      m.stage = .done (.ok (.immediate value)) (some n) ∧ result = .ok o ∧
        f.AnsweredAt past c value o := by
  obtain ⟨past, a, rest, c, m, x, t, hpast, hst, hne, hx, ha⟩ := exists_answering ha'
  obtain ⟨o, rfl⟩ := hs.answer_ok ha'
  refine ⟨past, a :: rest, c, m, ?_⟩
  generalize hq : Phase.ended (Completion.Ending.answered (Except.ok o)) t = q at ha
  cases ha with
  | same => exact absurd hq.symm (hne t)
  | hasty hb hv =>
      cases hq
      obtain ⟨run, hs'⟩ := concluded hx hst.command
      obtain ⟨hval, rfl⟩ := hs.stage hpast hst hs'
      cases hval
      exact ⟨o, hpast, hst, hs', rfl, .hasty hb hv⟩
  | answered hb hv =>
      cases hq
      have hstands := hst.stands
      rw [hb] at hstands
      obtain ⟨_, run, hs'⟩ := hstands
      obtain ⟨hval, rfl⟩ := hs.stage hpast hst hs'
      cases hval
      exact ⟨o, hpast, hst, hs', rfl, .waited hb hx hv⟩
  | direct hb hd =>
      obtain ⟨run, hs'⟩ := concluded hx hst.command
      obtain ⟨hval, _⟩ := hs.stage hpast hst hs'
      cases hval
      rcases hd with rfl | hd
      · have hstands := hst.stands
        rw [hb] at hstands
        exact hstands.elim
      · exact absurd rfl hd
  | _ => cases hq

end Flight

end Billing.Service
