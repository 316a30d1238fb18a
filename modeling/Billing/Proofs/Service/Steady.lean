import Billing.Proofs.Service.Verdicts

/-!
# Whose tags are read

The call of a command notes the tags of its account, and the run of the command reads those of the
account that is billed. Both are the account that the command is about. So the run reads what was
noted, if nobody replaces the tags of the account in between.
-/

namespace Billing.Service.Flight

open Completion (Call Waiter)
open Pipeline (Run Works)

variable {f : Flight} {past rest : List Action} {a : Action} {c : Call Subscription}
  {m : Submitted} {n : Nat} {r : Run} {account : AccountId} {tags noted : ControlTagSet}

/-- The call bears the account that the command is about when it arrives. -/
def Addressed (f : Flight) : Prop :=
  ∃ account, f.context.account = some account ∧ f.command.account? f.arrival.store = some account

/-- The tags of the account are not replaced after they have been noted and before a run has read
them. -/
def Steady (f : Flight) (past : List Action) (n : Nat) : Prop :=
  ∀ before x account tags rest, past = before ++ .replaceTags x account tags :: rest →
    f.context.account = some account →
      f.notedTags? before = none ∨ f.readTags? before n ≠ none

theorem Steady.of_append (h : f.Steady (past ++ rest) n) : f.Steady past n := by
  intro before x account tags rest' hpast
  exact h before x account tags (rest' ++ rest) (by rw [hpast]; simp)

theorem Steady.before (h : f.Steady f.after n) (hpast : f.after = past ++ rest) :
    f.Steady past n := by
  rw [hpast] at h
  exact h.of_append

theorem steady_of_not_retagged (h : ∀ a ∈ past, a.retagged? = none) : f.Steady past n := by
  intro before x account tags rest hpast _
  have hmem : .replaceTags x account tags ∈ past := by
    rw [hpast]
    exact List.mem_append_right _ List.mem_cons_self
  cases h _ hmem

/-! ## The account -/

/-- What a command has read, and what it has billed, is about this account. -/
structure About (f : Flight) (past : List Action) (m : Submitted) (account : AccountId) : Prop where
  command : f.command.account? (f.since past).store = some account
  reading : ∀ {rd : Reading}, m.stage.reading? = some rd → rd.account.id = account
  run : ∀ {n : Nat} {r : Run}, m.stage.run? = some n → (f.since past).works.runs[n]? = some r →
    r.order.account = account

theorem About.concat (h : f.About past m account) (hst : f.Status past c m)
    {c' : Call Subscription} {m' : Submitted} (hst' : f.Status (past ++ [a]) c' m')
    (hf : (f.since past).Supplied) : f.About (past ++ [a]) m' account := by
  have he := (f.since past).step_effect a
  have hstocked := f.stocked hf
  obtain ⟨_, hstage⟩ := hst.next hst'
  refine ⟨?_, fun {rd} hr => ?_, fun {n r} hn hr => ?_⟩
  · rw [since_concat]
    exact he.about hstocked.works.numbered hf h.command
  · rcases hstage with hstage | ⟨_, hadv⟩
    · exact h.reading (hstage ▸ hr)
    · rcases hadv.reading hr with hr | ⟨_, hacc, _⟩
      · exact h.reading hr
      · have hacc : m.command.account? (f.since past).store = some rd.account.id := hacc
        rw [hst.same.1, h.command] at hacc
        exact (Option.some.inj hacc).symm
  · rw [since_concat] at hr
    have hkept : m.stage.run? = some n → r.order.account = account := by
      intro hn
      obtain ⟨r₀, hr₀, _⟩ := (f.sound past).linked.started hst.command hn
      obtain ⟨r₁, hr₁, ho⟩ := he.order hr₀
      rw [hr] at hr₁
      cases hr₁
      rw [ho]
      exact h.run hn hr₀
    rcases hstage with hstage | ⟨_, hadv⟩
    · exact hkept (hstage ▸ hn)
    · rcases hadv.runs with ⟨_, hrun⟩ | ⟨rd, changed, hlaunch, hdone, hruns⟩
      · exact hkept (hrun ▸ hn)
      · rw [hdone] at hn
        cases hn
        rw [hruns] at hr
        rcases getElem?_concat_eq_some_iff.mp hr with hr | ⟨_, rfl⟩
        · exact absurd (List.getElem?_eq_some_iff.mp hr).1 (Nat.lt_irrefl _)
        · exact h.reading (by rw [hlaunch]; rfl)

theorem about (hst : f.Status past c m) (hacc : f.command.account? f.arrival.store = some account)
    (hf : (f.since past).Supplied) : f.About past m account := by
  induction past using List.reverseRecOn generalizing c m with
  | nil =>
      have hworks : (f.since []).works = f.arrival.works := by
        rw [since, upTo, System.steps_concat]
        simp only [System.step]
        split <;> rfl
      have hstands := hst.stands
      rw [hst.arrived] at hstands
      obtain ⟨hstage, _⟩ := hstands
      refine ⟨?_, fun hr => ?_, fun hn => ?_⟩
      · rw [System.store, hworks]
        exact hacc
      · rw [hstage] at hr
        cases hr
      · rw [hstage] at hn
        cases hn
  | append_singleton past a ih =>
      obtain ⟨c₀, m₀, hst₀⟩ := f.status past
      have hf₀ := supplied_of_append hf
      exact (ih hst₀ hf₀).concat hst₀ hst hf₀

/-- The run that a command starts is its own from the beginning. -/
theorem Succeeded.own {value : Subscription} (h : f.Succeeded value n)
    (hpast : f.after = past ++ rest)
    (hst : f.Status past c m) (hr : (f.since past).works.runs[n]? = some r) :
    m.stage.run? = some n := by
  obtain ⟨j, m', hm', hn⟩ := (f.sound past).linked.source hr
  obtain ⟨m₁, hm₁, _, hn₁⟩ := System.run?_steps hm' hn rest
  obtain ⟨m₂, hm₂, hs₂⟩ := h
  rw [← since_append, ← hpast] at hm₁
  have hj := (f.sound f.after).linked.alone hm₁ hm₂ hn₁ (by rw [hs₂]; rfl)
  rw [hj, hst.command] at hm'
  cases hm'
  exact hn

/-! ## The tags -/

/-- The account bears the noted tags until a run has read them. -/
structure Agrees (f : Flight) (past : List Action) (n : Nat) (account : AccountId)
    (noted : ControlTagSet) : Prop where
  unread : f.readTags? past n = none →
    ∃ b, (f.since past).store.account? account = some b ∧ b.tags = noted
  read : ∀ {tags : ControlTagSet}, f.readTags? past n = some tags → tags = noted

theorem readTags?_concat (f : Flight) (past : List Action) (a : Action) (n : Nat) :
    f.readTags? (past ++ [a]) n =
      (f.readTags? past n).or (((f.since past).step a).readTags? n) := by
  rw [readTags?, upTo_append, System.first?_concat]
  rfl

/-- A run reads the tags that its account has when it leaves its queue. -/
theorem readTags?_step (hf : (f.since past).Supplied) (hunread : f.readTags? past n = none)
    (hread : ((f.since past).step a).readTags? n = some tags) : ∃ r b,
      (f.since past).works.runs[n]? = some r ∧
        (f.since past).store.account? r.order.account = some b ∧ b.tags = tags := by
  have he := (f.since past).step_effect a
  obtain ⟨r', hr', ht⟩ := Option.bind_eq_some_iff.mp hread
  rcases he.run_before hr' with ⟨r, hr, _⟩ | ⟨_, _, _, _, _, _, _, rfl, _⟩
  · have hq : r.phase = .queued := by
      rcases (f.readings hf).runs hr with ⟨hq, _⟩ | ⟨_, tags', htags, _⟩
      · exact hq
      · have htags : f.readTags? past n = some tags' := htags
        rw [hunread] at htags
        cases htags
    obtain ⟨b, hb⟩ := (f.stocked hf).billed hr
    refine ⟨r, b, hr, hb, ?_⟩
    rcases he.run hr with hsame | hs
    · rw [hr'] at hsame
      cases hsame
      rw [hq] at ht
      cases ht
    · have hnext := hs.run
      rw [hr'] at hnext
      cases hnext
      have hb : (f.since past).works.books.store.account? r.order.account = some b := hb
      simp only [Run.next, hq, Pipeline.Phase.step, hb] at ht
      exact Option.some.inj ht
  · cases ht

theorem Agrees.concat (h : f.Agrees past n account noted) (hf : (f.since past).Supplied)
    (hctx : f.context.account = some account) (hsteady : f.Steady (past ++ [a]) n)
    (hnoted : f.notedTags? past = some noted)
    (hown : ∀ r, (f.since past).works.runs[n]? = some r → r.order.account = account) :
    f.Agrees (past ++ [a]) n account noted := by
  cases hread : f.readTags? past n with
  | some tags =>
      have hread' := readTags?_append_of_some [a] hread
      rw [h.read hread] at hread'
      refine ⟨fun hn => ?_, fun ht => ?_⟩
      · rw [hread'] at hn
        cases hn
      · rw [hread'] at ht
        exact (Option.some.inj ht).symm
  | none =>
      obtain ⟨b, hb, htags⟩ := h.unread hread
      refine ⟨fun _ => ?_, fun {tags} ht => ?_⟩
      · rw [since_concat]
        obtain ⟨tags, hb', hsame⟩ := ((f.since past).step_effect a).account?
          (f.stocked hf).works.numbered hf hb
        refine ⟨_, hb', ?_⟩
        rw [← htags]
        refine hsame fun ha => ?_
        cases a with
        | replaceTags x id tags =>
            cases ha
            rcases hsteady past x account tags [] rfl hctx with hn | hr
            · rw [hnoted] at hn
              cases hn
            · exact hr hread
        | _ => cases ha
      · rw [readTags?_concat, hread, Option.none_or] at ht
        obtain ⟨r, b', hr, hb', ht'⟩ := readTags?_step hf hread ht
        rw [hown r hr, hb] at hb'
        cases hb'
        rw [← ht', htags]

theorem Status.noting (h : f.Status past c m) (hctx : f.context.account = some account)
    (hnone : f.notedTags? past = none)
    (hnoted : f.notedTags? (past ++ [a]) = some noted) {c' : Call Subscription} {m' : Submitted}
    (h' : f.Status (past ++ [a]) c' m') : m'.stage = .reading ∧
      ∃ b, (f.since (past ++ [a])).store.account? account = some b ∧ b.tags = noted := by
  have hp' : c'.phase = .noted noted := by
    rw [notedTags?_concat, hnone, Option.none_or, ← since_concat,
      notedTags?_of_call h'.call] at hnoted
    cases hp : c'.phase <;> rw [hp] at hnoted <;> cases hnoted
    rfl
  have hstands := h'.stands
  rw [hp'] at hstands
  refine ⟨hstands.1, ?_⟩
  have hstill : c.phase ≠ .noted noted := by
    intro hp
    have hstands := h.stands
    rw [hp, hnone] at hstands
    cases hstands.2
  rcases (h.next h').1 with ⟨hp, _⟩ | ⟨x, hx, _, ha⟩
  · exact absurd (hp.symm.trans hp') hstill
  · rw [hp'] at ha
    generalize hq : Completion.Phase.noted noted = q at ha
    cases ha with
    | same => exact absurd hq.symm hstill
    | noted =>
        cases hq
        obtain ⟨m₀, rfl, hm₀, htags⟩ := System.started hx
        rw [h.command] at hm₀
        cases hm₀
        rw [h.same.2, System.tagsFor, hctx] at htags
        cases hb : (f.since past).store.account account with
        | error e =>
            simp only [hb] at htags
            cases htags
        | ok b =>
            simp only [hb] at htags
            cases htags
            refine ⟨b, ?_, rfl⟩
            have hb := Command.store_account_ok hb
            rw [since_concat]
            simp only [System.step, h.command]
            exact hb
    | _ => cases hq

theorem agrees {value : Subscription} (hs : f.Succeeded value n) (hpast : f.after = past ++ rest)
    (hctx : f.context.account = some account)
    (hacc : f.command.account? f.arrival.store = some account) (hsteady : f.Steady past n)
    (hf : (f.since past).Supplied) (hnoted : f.notedTags? past = some noted) :
    f.Agrees past n account noted := by
  induction past using List.reverseRecOn generalizing rest with
  | nil =>
      obtain ⟨c, m, hst⟩ := f.status []
      have hstands := hst.stands
      rw [hst.arrived] at hstands
      rw [hstands.2] at hnoted
      cases hnoted
  | append_singleton past a ih =>
      have hf₀ := supplied_of_append hf
      have hpast₀ : f.after = past ++ ([a] ++ rest) := by rw [hpast]; simp
      obtain ⟨c, m, hst⟩ := f.status past
      obtain ⟨c', m', hst'⟩ := f.status (past ++ [a])
      cases hbefore : f.notedTags? past with
      | some tags =>
          have hsame := notedTags?_append_of_some [a] hbefore
          rw [hnoted] at hsame
          cases hsame
          refine (ih hpast₀ hsteady.of_append hf₀ hbefore).concat hf₀ hctx hsteady hbefore ?_
          intro r hr
          exact (about hst hacc hf₀).run (hs.own hpast₀ hst hr) hr
      | none =>
          obtain ⟨hstage, hb⟩ := hst.noting hctx hbefore hnoted hst'
          -- No run has been started for a command that has only just been let on.
          have hunread : f.readTags? (past ++ [a]) n = none := by
            refine (f.readings hf).absent (List.getElem?_eq_none_iff.mp ?_)
            cases hr : (f.since (past ++ [a])).works.runs[n]? with
            | none => exact hr
            | some r =>
                have hn := hs.own hpast hst' hr
                rw [hstage] at hn
                cases hn
          refine ⟨fun _ => hb, fun ht => ?_⟩
          rw [hunread] at ht
          cases ht

/-- A run reads the tags that were noted if nobody replaces them in between. -/
theorem read_eq_noted {value : Subscription} {read : ControlTagSet} (hs : f.Succeeded value n)
    (hpast : f.after = past ++ rest) (haddr : f.Addressed) (hsteady : f.Steady past n)
    (hf : (f.since past).Supplied) (hnoted : f.notedTags? past = some noted)
    (hread : f.readTags? past n = some read) : read = noted := by
  obtain ⟨account, hctx, hacc⟩ := haddr
  exact (agrees hs hpast hctx hacc hsteady hf hnoted).read hread

end Billing.Service.Flight
