import Billing.Proofs.Completion.Answers
import Billing.Proofs.Service.Stages
import Billing.Service.System

/-!
# Effects of an action

What an action makes of the billing works, of the commands and of the desk, told once for all
actions. Everything that holds along executions is derived from this.
-/

namespace Billing.Completion.Desk

variable {α : Type} {d : Desk α} {f : Call α → Registry → Call α × Registry}

/-! ## Interruptions -/

/-- A desk that differs from another only in who has been interrupted; nobody has for the first time
unless `p` holds. -/
structure Alike (p : Prop) (d e : Desk α) : Prop where
  registry : e.registry = d.registry
  now : e.now = d.now
  maxWait : e.maxWait = d.maxWait
  length : e.calls.length = d.calls.length
  calls : ∀ {j : Nat} {c : Call α}, d.calls[j]? = some c →
    ∃ b, e.calls[j]? = some { c with interrupted := b } ∧ (b = true → c.interrupted = true ∨ p)

theorem Alike.refl {p : Prop} : Alike p d d :=
  ⟨rfl, rfl, rfl, rfl, fun {_ c} h => ⟨c.interrupted, h, Or.inl⟩⟩

theorem Alike.of_calls {p : Prop} {e : Desk α} (h : Alike p d e) {j : Nat} {c : Call α}
    (hc : e.calls[j]? = some c) :
    ∃ c' b, d.calls[j]? = some c' ∧ c = { c' with interrupted := b } ∧
      (b = true → c'.interrupted = true ∨ p) := by
  have hj : j < d.calls.length := h.length ▸ (List.getElem?_eq_some_iff.mp hc).1
  obtain ⟨b, hb, hi⟩ := h.calls (List.getElem?_eq_getElem hj)
  rw [hc] at hb
  cases hb
  exact ⟨_, b, List.getElem?_eq_getElem hj, rfl, hi⟩

theorem Alike.holds_iff {p : Prop} {e : Desk α} (h : Alike p d e) {j : Nat} {w : Waiter} :
    e.Holds j w ↔ d.Holds j w := by
  constructor
  · rintro ⟨c, hc, hw⟩
    obtain ⟨c', b, hc', rfl, _⟩ := h.of_calls hc
    exact ⟨c', hc', hw⟩
  · rintro ⟨c, hc, hw⟩
    obtain ⟨b, hb, _⟩ := h.calls hc
    exact ⟨_, hb, hw⟩

theorem Owned.alike {p : Prop} {e : Desk α} {r₀ : Registry} (h : Owned r₀ d) (k : Alike p d e) :
    Owned r₀ e where
  hash := k.registry ▸ h.hash
  shards j := by simpa only [k.registry, k.holds_iff] using h.shards j
  token {i c w} hc hw := by
    obtain ⟨c', b, hc', rfl, _⟩ := k.of_calls hc
    have ht : w.token = c'.context.token := h.token hc' hw
    exact ht
  number hv := k.registry ▸ h.number (k.holds_iff.mp hv)
  free hv := h.free (k.holds_iff.mp hv)
  apart hv hw := h.apart (k.holds_iff.mp hv) (k.holds_iff.mp hw)

theorem alike_interrupt {p : Prop} (hp : p) (i : Nat) : Alike p d (d.step (.interrupt i)) := by
  show Alike p d (d.onCall i fun c r => ({ c with interrupted := true }, r))
  unfold onCall
  cases hc : d.calls[i]? with
  | none => exact .refl
  | some c =>
      refine ⟨rfl, rfl, rfl, List.length_set, fun {j c'} hj => ?_⟩
      by_cases hi : j = i
      · subst hi
        rw [hc] at hj
        cases hj
        exact ⟨true, (getElem?_set_eq_some_iff hc).mpr (Or.inl ⟨rfl, rfl⟩), fun _ => Or.inr hp⟩
      · exact ⟨c'.interrupted, (getElem?_set_eq_some_iff hc).mpr (Or.inr ⟨hi, hj⟩), Or.inl⟩

theorem Alike.trans {p : Prop} {e g : Desk α} (h : Alike p d e) (k : Alike p e g) :
    Alike p d g where
  registry := k.registry.trans h.registry
  now := k.now.trans h.now
  maxWait := k.maxWait.trans h.maxWait
  length := k.length.trans h.length
  calls hc := by
    obtain ⟨b, hb, hi⟩ := h.calls hc
    obtain ⟨b', hb', hi'⟩ := k.calls hb
    refine ⟨b', hb', fun ht => ?_⟩
    rcases hi' ht with ht | hp
    · exact hi ht
    · exact Or.inr hp

theorem alike_interruptAll {p : Prop} (hp : p) :
    Alike p d (d.onAllCalls fun c r => ({ c with interrupted := true }, r)) := by
  have hall : ∀ is : List Nat, Alike p d
      (is.foldl (fun d i => d.onCall i fun c r => ({ c with interrupted := true }, r)) d) := by
    intro is
    induction is generalizing d with
    | nil => exact .refl
    | cons i is ih => exact (alike_interrupt hp i).trans ih
  exact hall _

end Billing.Completion.Desk

namespace Billing.Service

open Completion (Desk Happening Move)
open Pipeline (Works Run)

/-! ## When time passes -/

theorem min?_le {xs : List Nat} {n m : Nat} (h : n ∈ xs) (hm : xs.min? = some m) : m ≤ n :=
  (List.min?_eq_some_iff.mp hm).2 n h

theorem exists_min?_le {xs : List Nat} {n : Nat} (h : n ∈ xs) : ∃ m, xs.min? = some m ∧ m ≤ n := by
  cases hm : xs.min? with
  | none =>
      rw [List.min?_eq_none_iff] at hm
      rw [hm] at h
      cases h
  | some m => exact ⟨m, rfl, min?_le h hm⟩

theorem exists_nextDue? {w : Works} {n : Nat} {r : Run} (hr : w.runs[n]? = some r)
    (he : r.phase ≠ .ended) : ∃ m, w.nextDue? = some m ∧ m ≤ r.due := by
  refine exists_min?_le (List.mem_filterMap.mpr ⟨r, List.mem_of_getElem? hr, ?_⟩)
  rw [if_neg he]

/-- The account whose tags an action replaces. -/
def Action.retagged? : Action → Option AccountId
  | .replaceTags _ id _ => some id
  | _ => none

namespace System

variable {s : System} {a : Action}

theorem exists_nextMoment? {n : Nat} {r : Run} (hr : s.works.runs[n]? = some r)
    (he : r.phase ≠ .ended) : ∃ m, s.nextMoment? = some m ∧ m ≤ r.due := by
  obtain ⟨m, hm, hle⟩ := exists_nextDue? hr he
  have hmem : m ∈ s.works.nextDue?.toList ++ (s.closing.filter (s.time < ·)).toList := by
    simp [hm]
  obtain ⟨k, hk, hkm⟩ := exists_min?_le hmem
  exact ⟨k, hk, Nat.le_trans hkm hle⟩

/-! ## Effects -/

/-- What an action brings to the desk. -/
inductive Brings (s : System) : Action → Happening Subscription → Prop where
  | start {i : Nat} {m : Submitted} (command : s.commands[i]? = some m) :
      Brings s (.start i) (.start i (s.tagsFor m.context))
  | enlist {i : Nat} : Brings s (.enlist i) (.enlist i)
  | conclude {i : Nat} {m : Submitted} {result : Except DomainError (Executed Subscription)}
      {run : Option Nat} (command : s.commands[i]? = some m) (stage : m.stage = .done result run) :
      Brings s (.conclude i) (.conclude i result)
  | crash {i : Nat} : Brings s (.conclude i) (.drop i)
  | poll {i : Nat} : Brings s (.poll i) (.poll i)
  | drop {i : Nat} : Brings s (.drop i) (.drop i)

/-- What an action makes of the works, the commands and the desk. -/
inductive Effect (s : System) :
    Action → Works → List Submitted → Desk Subscription → Prop where
  | idle {a : Action} : Effect s a s.works s.commands s.desk
  | arrived {x : Completion.CallContext} {completing : Bool} {timeout : Nat} {c : Command}
      {d : Desk Subscription}
      (desk : Desk.Alike (s.closing ≠ none) (s.desk.step (.arrive x completing timeout)) d) :
      Effect s (.submit x completing timeout c) s.works (s.commands ++ [⟨c, x, .reading⟩]) d
  | turned {a : Action} {h : Happening Subscription} (brings : s.Brings a h) :
      Effect s a s.works s.commands (s.desk.step h)
  | worked {i : Nat} {m : Submitted} {stage : Stage} {w : Works} (command : s.commands[i]? = some m)
      (runs : s.letsRun i = true) (advance : m.command.Advance m.context s.works m.stage stage w) :
      Effect s (.work i) w (s.commands.set i { m with stage }) s.desk
  | stepped {n : Nat} : Effect s (.stepRun n) (s.works.stepRun n) s.commands s.desk
  | delivered {p : Pipeline.Publication} {rest : List Pipeline.Publication}
      (published : s.works.published = p :: rest) :
      Effect s .deliver { s.works with published := rest } s.commands
        (s.desk.step (.event p.token p.event))
  | entered {a : Action} {b : Pipeline.Books} {clock : Instant}
      (entry : s.works.books.Entry none a.retagged? b) :
      Effect s a { s.works with books := b, clock } s.commands s.desk
  | closed {d : Desk Subscription} (desk : Desk.Alike True s.desk d) :
      Effect s .shutDown s.works s.commands d
  | passed {moment reached : Nat} {d : Desk Subscription} (quiet : s.isBusy = false)
      (due : ∀ {n : Nat} {r : Run}, s.works.runs[n]? = some r → r.phase ≠ .ended → reached ≤ r.due)
      (desk : Desk.Alike (s.closing ≠ none) (s.desk.advance reached) d) :
      Effect s (.pass moment) (s.works.passTo reached) s.commands d

theorem closing_of_isClosed (h : s.isClosed = true) : s.closing ≠ none := by
  intro hn
  rw [isClosed, hn] at h
  cases h

theorem store_passTo (s : System) (moment : Nat) : (s.passTo moment).store = s.store := by
  unfold passTo
  extract_lets moment later
  have hlater : later.store = s.store := rfl
  split
  · exact hlater
  · exact hlater

theorem passTo_effect {moment : Nat} (h : s.isBusy = false) :
    s.Effect (.pass moment) (s.passTo moment).works (s.passTo moment).commands
      (s.passTo moment).desk := by
  obtain ⟨reached, hreached, hdue⟩ : ∃ reached, s.passTo moment =
      (let t := { s with works := s.works.passTo reached, desk := s.desk.advance reached }
        if t.isClosed then t.interruptAll else t) ∧
      ∀ {n : Nat} {r : Run}, s.works.runs[n]? = some r → r.phase ≠ .ended → reached ≤ r.due := by
    refine ⟨_, rfl, fun {n r} hr he => ?_⟩
    obtain ⟨m, hm, hle⟩ := exists_nextMoment? hr he
    rw [hm]
    exact Nat.le_trans (Nat.min_le_right _ _) hle
  rw [hreached]
  simp only
  split
  · rename_i hc
    have hn := closing_of_isClosed hc
    exact .passed h hdue (Desk.alike_interruptAll hn)
  · exact .passed h hdue .refl

theorem createAccount_effect (x : Completion.CallContext) (n : NewAccount) :
    s.Effect (.createAccount x n) (s.createAccount x n).2.works (s.createAccount x n).2.commands
      (s.createAccount x n).2.desk := by
  unfold createAccount Service.createAccount
  cases ha : Account.create (.numbered s.works.books.fresh) n s.works.clock with
  | error e => exact .idle
  | ok account =>
      refine .entered (.account ?_)
      unfold Account.create at ha
      split at ha
      · cases ha
      · split at ha
        · cases ha
          rfl
        · cases ha

theorem replaceTags_effect (x : Completion.CallContext) (id : AccountId) (tags : ControlTagSet) :
    s.Effect (.replaceTags x id tags) (s.replaceTags x id tags).2.works
      (s.replaceTags x id tags).2.commands (s.replaceTags x id tags).2.desk := by
  unfold replaceTags Service.replaceTags Store.setTags
  cases ha : s.works.store.account id with
  | error e => exact .idle
  | ok account => exact .entered (.tags rfl (Command.store_account_ok ha))

theorem audit_effect (i : Nat) :
    s.Effect (.audit i) (s.audit i).works (s.audit i).commands (s.audit i).desk := by
  simp only [audit]
  split
  · exact .entered .audit
  · exact .idle

/-- What was done to an account is written to the audit log at once, and nothing is left over. -/
theorem audit_noted_ok (s : System) (x : Completion.CallContext) (action : String) (a : Account)
    (w : Works) :
    (s.noted x action (.ok a, w)).2.audit s.notices.length =
      { s with works := Service.audit w x a.id action } := by
  simp [noted, audit, Except.toOption, List.eraseIdx_append_of_length_le]

/-- What was refused is not written to the audit log. -/
theorem audit_noted_error (s : System) (x : Completion.CallContext) (action : String)
    (e : DomainError) :
    (s.noted x action (.error e, s.works)).2.audit s.notices.length = s := by
  simp [noted, audit, Except.toOption, List.eraseIdx_of_length_le]

theorem step_effect (s : System) (a : Action) :
    s.Effect a (s.step a).works (s.step a).commands (s.step a).desk := by
  cases a with
  | submit x completing timeout c =>
      simp only [step]
      split
      · rename_i hc
        exact .arrived (Desk.alike_interrupt (closing_of_isClosed hc) _)
      · exact .arrived .refl
  | start i =>
      simp only [step]
      split
      · rename_i m hm
        exact .turned (.start hm)
      · exact .idle
  | enlist i => exact .turned .enlist
  | work i =>
      simp only [step]
      split
      · rename_i m hm
        split
        · rename_i hr
          exact .worked hm hr (Command.step_advance m.stage)
        · exact .idle
      · exact .idle
  | conclude i =>
      simp only [step]
      split
      · rename_i m hm
        split
        · rename_i hs
          exact .turned (.conclude hm hs)
        · exact .turned .crash
        · exact .idle
      · exact .idle
  | poll i => exact .turned .poll
  | drop i => exact .turned .drop
  | stepRun n => exact .stepped
  | deliver =>
      simp only [step]
      split
      · exact .idle
      · rename_i hp
        exact .delivered hp
  | createAccount x n => exact createAccount_effect x n
  | replaceTags x id tags => exact replaceTags_effect x id tags
  | audit i => exact audit_effect i
  | rearrange scans => exact .idle
  | setClock t => exact .entered .nothing
  | issueToken => exact .entered .spent
  | shutDown => exact .closed (Desk.alike_interruptAll trivial)
  | pass moment =>
      simp only [step]
      split
      · exact .idle
      · rename_i hb
        exact passTo_effect (by simpa using hb)

/-! ## One call -/

/-- What an action moves at the desk. -/
inductive Moves (s : System) : Action → Move Subscription → Prop where
  | arrive {x : Completion.CallContext} {completing : Bool} {timeout : Nat} {c : Command} :
      Moves s (.submit x completing timeout c) (.happening (.arrive x completing timeout))
  | turn {a : Action} {h : Happening Subscription} (brings : s.Brings a h) :
      Moves s a (.happening h)
  | deliver {p : Pipeline.Publication} {rest : List Pipeline.Publication}
      (published : s.works.published = p :: rest) :
      Moves s .deliver (.happening (.event p.token p.event))
  | pass {moment reached : Nat} (quiet : s.isBusy = false)
      (due : ∀ {n : Nat} {r : Run}, s.works.runs[n]? = some r → r.phase ≠ .ended →
        reached ≤ r.due) :
      Moves s (.pass moment) (.pass reached)

theorem Moves.ne_interrupt {m : Move Subscription} (h : s.Moves a m) (i : Nat) :
    m ≠ .happening (.interrupt i) := by
  rintro rfl
  cases h with
  | turn hb => cases hb

theorem started {i : Nat} {tags : Except DomainError ControlTagSet}
    (h : s.Moves a (.happening (.start i tags))) :
    ∃ m, a = .start i ∧ s.commands[i]? = some m ∧ tags = s.tagsFor m.context := by
  generalize hx : Happening.start i tags = x at h
  cases h with
  | arrive => cases hx
  | turn hb =>
      cases hb with
      | start hm =>
          cases hx
          exact ⟨_, rfl, hm, rfl⟩
      | _ => cases hx
  | deliver => cases hx

/-- What an action makes of a call. -/
theorem Effect.call {w : Works} {cs : List Submitted} {d : Desk Subscription} {j : Nat}
    {c : Completion.Call Subscription} (h : s.Effect a w cs d) (hc : s.desk.calls[j]? = some c) :
    ∃ c', d.calls[j]? = some c' ∧ c'.asked = c.asked ∧
      (c'.interrupted = true → c.interrupted = true ∨ s.closing ≠ none ∨ a = .shutDown) ∧
      (c'.phase = c.phase ∧ w.time = s.time ∨
        ∃ m, s.Moves a m ∧ w.time = m.timeFrom s.time ∧ c.After s.desk j m c'.phase) := by
  have hmove : ∀ {m : Move Subscription}, s.Moves a m → ∃ c', (s.desk.move m).calls[j]? = some c' ∧
      c'.asked = c.asked ∧ c'.interrupted = c.interrupted ∧ c.After s.desk j m c'.phase := by
    intro m hm
    obtain ⟨c', hc', hf, ha⟩ := Desk.move_call hc m hm.ne_interrupt
    exact ⟨c', hc', congrArg Prod.fst hf, congrArg Prod.snd hf, ha⟩
  have hsame : ∀ {p : Prop} {c' : Completion.Call Subscription}, c'.interrupted = c.interrupted →
      c'.interrupted = true → c.interrupted = true ∨ p := by
    intro p c' he ht
    exact Or.inl (he.symm.trans ht)
  cases h with
  | @arrived x completing timeout _ _ hd =>
      obtain ⟨c', hc', hx, hi, ha⟩ := hmove .arrive
      obtain ⟨b, hb, hbi⟩ := hd.calls hc'
      refine ⟨_, hb, hx, fun ht => ?_, Or.inr ⟨_, .arrive, rfl, ha⟩⟩
      rcases hbi ht with ht | hp
      · exact hsame hi ht
      · exact Or.inr (Or.inl hp)
  | turned hb =>
      obtain ⟨c', hc', hx, hi, ha⟩ := hmove (.turn hb)
      exact ⟨c', hc', hx, hsame hi, Or.inr ⟨_, .turn hb, rfl, ha⟩⟩
  | worked _ _ hadv => exact ⟨c, hc, rfl, Or.inl, Or.inl ⟨rfl, hadv.time.1⟩⟩
  | stepped => exact ⟨c, hc, rfl, Or.inl, Or.inl ⟨rfl, Works.time_stepRun ..⟩⟩
  | delivered hp =>
      obtain ⟨c', hc', hx, hi, ha⟩ := hmove (.deliver hp)
      exact ⟨c', hc', hx, hsame hi, Or.inr ⟨_, .deliver hp, rfl, ha⟩⟩
  | closed hd =>
      obtain ⟨b, hb, _⟩ := hd.calls hc
      exact ⟨_, hb, rfl, fun _ => Or.inr (Or.inr rfl), Or.inl ⟨rfl, rfl⟩⟩
  | passed hq hdue hd =>
      obtain ⟨c', hc', hx, hi, ha⟩ := hmove (.pass hq hdue)
      obtain ⟨b, hb, hbi⟩ := hd.calls hc'
      refine ⟨_, hb, hx, fun ht => ?_, Or.inr ⟨_, .pass hq hdue, rfl, ha⟩⟩
      rcases hbi ht with ht | hp
      · exact hsame hi ht
      · exact Or.inr (Or.inl hp)
  | _ => exact ⟨c, hc, rfl, Or.inl, Or.inl ⟨rfl, rfl⟩⟩

theorem Effect.call_before {w : Works} {cs : List Submitted} {d : Desk Subscription} {j : Nat}
    {c : Completion.Call Subscription} (h : s.Effect a w cs d) (hc : d.calls[j]? = some c) :
    (∃ c', s.desk.calls[j]? = some c') ∨
      c.phase = .arrived ∧ (c.interrupted = true → s.closing ≠ none) := by
  have hlen : d.calls.length = s.desk.calls.length → ∃ c', s.desk.calls[j]? = some c' := by
    intro hl
    have hj := (List.getElem?_eq_some_iff.mp hc).1
    exact ⟨_, List.getElem?_eq_getElem (hl ▸ hj)⟩
  cases h with
  | arrived hd =>
      obtain ⟨c', b, hc', rfl, hb⟩ := hd.of_calls hc
      rcases getElem?_concat_eq_some_iff.mp hc' with hc' | ⟨_, rfl⟩
      · exact Or.inl ⟨c', hc'⟩
      · exact Or.inr ⟨rfl, fun ht => (hb ht).resolve_left (fun h => nomatch h)⟩
  | turned hb => cases hb <;> exact Or.inl (hlen Desk.length_onCall)
  | delivered => exact Or.inl ⟨c, hc⟩
  | closed hd => exact Or.inl (hlen hd.length)
  | passed _ _ hd => exact Or.inl (hlen (hd.length.trans (Desk.length_advance _)))
  | _ => exact Or.inl ⟨c, hc⟩

/-- A waiter that a call has after an action it had before, or it has just been made. -/
theorem Effect.holds {w : Works} {cs : List Submitted} {d : Desk Subscription} {j : Nat}
    {v : Completion.Waiter} (h : s.Effect a w cs d) (hv : d.Holds j v) :
    s.desk.Holds j v ∨ v.number = s.desk.registry.made := by
  obtain ⟨c, hc, hw⟩ := hv
  rcases h.call_before hc with ⟨c', hc'⟩ | ⟨hp, _⟩
  · obtain ⟨c'', hc'', _, _, hp⟩ := h.call hc'
    rw [hc] at hc''
    cases hc''
    rcases hp with ⟨hp, _⟩ | ⟨m, _, _, ha⟩
    · exact Or.inl ⟨c', hc', hp ▸ hw⟩
    · rcases ha.waiter? hw with hw | ⟨_, _, hn⟩
      · exact Or.inl ⟨c', hc', hw⟩
      · exact Or.inr hn
  · rw [hp] at hw
    cases hw

/-- Only an event that is brought to the desk completes a waiter. -/
theorem Effect.mem_completed {w : Works} {cs : List Submitted} {d : Desk Subscription} {n : Nat}
    (h : s.Effect a w cs d) (hn : n ∈ d.registry.completed) :
    n ∈ s.desk.registry.completed ∨ ∃ p rest v, a = .deliver ∧ s.works.published = p :: rest ∧
      s.desk.registry.find? p.token = some v ∧ Completion.settles v.tags p.event = true ∧
        n = v.number := by
  cases h with
  | arrived hd =>
      rw [hd.registry] at hn
      exact Or.inl hn
  | turned hb =>
      rcases Desk.mem_completed_step.mp hn with hn | ⟨t, e, v, hx, _⟩
      · exact Or.inl hn
      · subst hx
        cases hb
  | delivered hp =>
      rcases Desk.mem_completed_step.mp hn with hn | ⟨t, e, v, hx, hv⟩
      · exact Or.inl hn
      · cases hx
        exact Or.inr ⟨_, _, v, rfl, hp, hv⟩
  | closed hd =>
      rw [hd.registry] at hn
      exact Or.inl hn
  | passed _ _ hd =>
      rw [hd.registry, Desk.completed_advance] at hn
      exact Or.inl hn
  | _ => exact Or.inl hn

theorem Effect.completed {w : Works} {cs : List Submitted} {d : Desk Subscription} {n : Nat}
    (h : s.Effect a w cs d) (hn : n ∈ s.desk.registry.completed) : n ∈ d.registry.completed := by
  cases h with
  | arrived hd =>
      rw [hd.registry]
      exact hn
  | turned => exact Desk.mem_completed_step.mpr (Or.inl hn)
  | delivered => exact Desk.mem_completed_step.mpr (Or.inl hn)
  | closed hd =>
      rw [hd.registry]
      exact hn
  | passed _ _ hd =>
      rw [hd.registry, Desk.completed_advance]
      exact hn
  | _ => exact hn

end System

end Billing.Service
