import Billing.Proofs.Service.Filing
import Billing.Proofs.Service.Progress
import Billing.Proofs.Service.Steady

/-!
# What a completed call has seen

The answers to calls that wait for their billing: which answer is given, whose run has told it, and
what is in the store by then.
-/

namespace Billing.Service.Flight

open Completion (Call CallResult settles)
open Pipeline (Run settlesUnder)

variable {f : Flight} {value : Subscription} {n : Nat} {result : CallResult Subscription}
  {more : List Action}

/-! ## Going on -/

theorem Succeeded.extended (h : f.Succeeded value n) (hmore : ∀ a ∈ more, a.goesOn = true) :
    (f.extended more).Succeeded value n := by
  obtain ⟨m, hm, hd⟩ := h
  refine ⟨m, ?_, hd⟩
  rw [final_extended, System.commands_steps hmore]
  exact hm

theorem Unshared.extended (h : f.Unshared f.after) (hmore : ∀ a ∈ more, a.goesOn = true) :
    (f.extended more).Unshared (f.extended more).after := by
  intro j m hm
  have hcommands : (f.extended more).final.commands = f.final.commands := by
    rw [final_extended, System.commands_steps hmore]
  have hm : (f.extended more).final.commands[j]? = some m := hm
  rw [hcommands] at hm
  exact h j m hm

theorem Undisturbed.extended (h : f.Undisturbed) (hmore : ∀ a ∈ more, a.goesOn = true) :
    (f.extended more).Undisturbed := by
  intro hmem
  have hmem : .shutDown ∈ f.upTo (f.after ++ more) := hmem
  rw [upTo_append, List.mem_append] at hmem
  rcases hmem with hmem | hmem
  · exact h hmem
  · cases hmore _ hmem

theorem Steady.extended (h : f.Steady f.after n) (hmore : ∀ a ∈ more, a.goesOn = true) :
    (f.extended more).Steady (f.extended more).after n := by
  intro before x account tags rest he hctx
  have he : f.after ++ more = before ++ .replaceTags x account tags :: rest := he
  rcases split_append he.symm with ⟨rest', hafter, _⟩ | ⟨before', _, hlate⟩
  · exact h before x account tags rest' hafter hctx
  · have hmem : .replaceTags x account tags ∈ more := by
      rw [hlate]
      exact List.mem_append_right _ List.mem_cons_self
    cases hmore _ hmem

theorem lt_patience (h : 1 ≤ min f.timeout f.settings.maxCallTimeout) :
    3 * stepDelay < f.patience := by
  rw [Nat.le_min] at h
  rw [patience, Nat.lt_min]
  unfold stepDelay
  omega

/-! ## Tags that stay -/

section Steady

variable (hs : f.Succeeded value n) (hu : f.Unshared f.after) (haddr : f.Addressed)
  (hsteady : f.Steady f.after n) (hf : f.final.Supplied)
include hs hu haddr hsteady hf

theorem completed_of_steady (hd : f.Undisturbed) (hp : 3 * stepDelay < f.patience)
    (ha : f.answer? = some result) : result = .ok (.completed value) ∧ f.final.HasFiled n := by
  obtain ⟨past, rest, noted, read, r, o, hpast, rfl, hdec⟩ := exists_decided hs ha hu hf hd hp
  obtain rfl := read_eq_noted hs hpast haddr (hsteady.before hpast) (supplied_before hf hpast)
    hdec.ofNoted hdec.ofRead
  rcases hdec.outcome with ⟨rfl, hsettled⟩ | ⟨_, hnot⟩
  · refine ⟨rfl, ?_⟩
    have hfiled : (f.since past).HasFiled n :=
      ⟨r, hdec.run, Pipeline.Phase.isFiled_of_hasSettled hdec.follows hsettled⟩
    rw [final, hpast, since_append]
    exact hfiled.steps rest
  · rw [Pipeline.settlesUnder_self] at hnot
    cases hnot

theorem time_of_steady {c : Call Subscription} {v : Completion.Waiter} {x : Subscription}
    {deadline : Nat} (hc : f.final.desk.calls[f.number]? = some c)
    (hw : c.phase = .waiting v x deadline) :
    f.final.time + f.patience ≤ deadline + 3 * stepDelay := by
  obtain ⟨c', m, hst⟩ := f.status f.after
  have hc' : f.final.desk.calls[f.number]? = some c' := hst.call
  rw [hc] at hc'
  cases hc'
  have hv : c.phase.waiter? = some v := by rw [hw]; rfl
  obtain ⟨m', hm', hdone⟩ := hs
  have hm : f.final.commands[f.number]? = some m := hst.command
  rw [hm] at hm'
  cases hm'
  have hn : m.stage.run? = some n := by rw [hdone]; rfl
  obtain ⟨start, r, hb, ho⟩ := on_time hst hu hv hn
  rw [hw] at hb
  have hdeadline : deadline = start + f.patience := hb
  have htime : f.final.time ≤ start + 3 * stepDelay := by
    by_cases he : r.phase = .ended
    · refine ho.told he ?_
      rcases told_iff_hasSettled hst hu hf hv hn ho.run with ⟨hq, _⟩ | ⟨read, hread, _, ht⟩
      · rw [he] at hq
        cases hq
      · have hsame := read_eq_noted ⟨m, hm, hdone⟩ (List.append_nil _).symm haddr hsteady hf
          (hst.noted hv) hread
        rw [ht, he, hsame]
        exact Pipeline.settlesUnder_self ..
    · have htimely : f.final.time ≤ r.due := (f.sound f.after).timed.timely ho.run he
      have hdue := ho.due he
      have := Nat.mul_le_mul_left stepDelay r.phase.pausesMade_le
      omega
  omega

end Steady

/-- Every call that waits for its billing, bears a token of its own, and waits for a second or more
without being interrupted is answered as completed if the tags of its account are not replaced
between being noted and being read. It is answered after three pauses at most, whatever else goes
on, and by then the store holds all records that its run ever writes. That no identifier is handed
out twice is what `supplied` says. -/
theorem answered_completed (succeeded : f.Succeeded value n) (unshared : f.Unshared f.after)
    (addressed : f.Addressed) (steady : f.Steady f.after n) (undisturbed : f.Undisturbed)
    (patient : 1 ≤ min f.timeout f.settings.maxCallTimeout)
    (supplied : f.final.needs < Id.supply) :
    (∀ result, f.answer? = some result → result = .ok (.completed value) ∧ f.Filed n) ∧
      (∀ c v x deadline, f.final.desk.calls[f.number]? = some c →
        c.phase = .waiting v x deadline → f.final.time + f.patience ≤ deadline + 3 * stepDelay) ∧
      (f.final.ending? f.number = none →
        ∃ more, (f.extended more).answer? = some (.ok (.completed value))) := by
  have hp := lt_patience patient
  have hf : f.final.Supplied := Nat.lt_of_le_of_lt (Nat.le_add_right _ _) supplied
  refine ⟨fun result ha => ?_, fun c v x deadline hc hw => ?_, fun hend => ?_⟩
  · obtain ⟨hresult, hn⟩ :=
      completed_of_steady succeeded unshared addressed steady hf undisturbed hp ha
    exact ⟨hresult, filed hn hf⟩
  · exact time_of_steady succeeded unshared addressed steady hf hc hw
  · have hclosing := (calm undisturbed (List.append_nil _).symm).closing
    obtain ⟨more, result, hmore, hneeds, ha⟩ := exists_answered succeeded hclosing hend
    have hf' : (f.extended more).final.Supplied := by
      rw [final_extended]
      exact Nat.lt_of_le_of_lt (Nat.le_add_right _ _) (Nat.lt_of_le_of_lt hneeds supplied)
    obtain ⟨rfl, _⟩ := completed_of_steady (succeeded.extended hmore) (unshared.extended hmore)
      addressed (steady.extended hmore) hf' (undisturbed.extended hmore) hp ha
    exact ⟨more, ha⟩

/-! ### An order -/

/-- A call starts, and its command goes through all its stages. -/
def carriedOut (i : Nat) : List Action :=
  [.start i, .enlist i, .work i, .work i, .work i, .work i, .conclude i]

/-- Under one token an account is created, this happens, a plan is ordered, and this happens. -/
def ordering (before after : List Action) : Flight where
  settings := .default
  hash _ := 0
  opening := ⟨0, 0, by decide, by decide⟩
  before := .createAccount ⟨.numbered 7, none, .none⟩ ⟨"Acme", 0, .empty, true⟩ :: before
  context := ⟨.numbered 7, some (.numbered 0), .none⟩
  timeout := 2
  command := .create (.numbered 0) "pro-monthly"
  after := after

theorem ordering_unshared {before after : List Action}
    (hnumber : (ordering before after).number = 0)
    (hone : (ordering before after).final.commands.length = 1) :
    (ordering before after).Unshared after := by
  intro j m hm _
  have hj : j < (ordering before after).final.commands.length := (List.getElem?_eq_some_iff.mp hm).1
  omega

/-- A plan is ordered, and its run takes all its steps. -/
def plain : Flight :=
  ordering [] (carriedOut 0 ++
    [.stepRun 0, .pass 20, .stepRun 0, .deliver, .pass 40, .stepRun 0, .stepRun 0, .deliver,
      .pass 60, .stepRun 0, .stepRun 0, .deliver, .poll 0])

theorem plain_completed :
    ∃ value, plain.answer? = some (.ok (.completed value)) ∧ plain.Filed 0 := by
  obtain ⟨value, hs⟩ : ∃ value, plain.Succeeded value 0 := ⟨_, _, rfl, rfl⟩
  obtain ⟨result, ha⟩ : ∃ result, plain.answer? = some result := ⟨_, rfl⟩
  obtain ⟨hanswer, _⟩ := answered_completed hs (ordering_unshared rfl rfl) ⟨_, rfl, rfl⟩
    (steady_of_not_retagged (by decide)) (by simp [Undisturbed, plain, ordering, upTo, carriedOut])
    (by decide) (by decide)
  obtain ⟨rfl, hfiled⟩ := hanswer result ha
  exact ⟨value, ha, hfiled⟩

/-! ## Tags that change -/

/-- A call that bears a token of its own, and that waits for a second or more without being
interrupted, is answered as completed exactly if its run settles under the noted tags whatever tags
it has read; otherwise it is answered as unconfirmed. -/
theorem answer_of_tags (succeeded : f.Succeeded value n) (unshared : f.Unshared f.after)
    (undisturbed : f.Undisturbed) (patient : 1 ≤ min f.timeout f.settings.maxCallTimeout)
    (supplied : f.final.Supplied) :
    (∀ result, f.answer? = some result → ∃ noted read r, f.notedTags? f.after = some noted ∧
      f.readTags? f.after n = some read ∧ f.final.works.runs[n]? = some r ∧
        result = .ok (if settlesUnder noted read r.order.amount then .completed value
          else .unconfirmed)) ∧
      (f.final.ending? f.number = none →
        ∃ more result, (f.extended more).answer? = some result) := by
  refine ⟨fun result ha => ?_, fun hend => ?_⟩
  · obtain ⟨past, rest, noted, read, r, o, hpast, rfl, hdec⟩ :=
      exists_decided succeeded ha unshared supplied undisturbed (lt_patience patient)
    have hnoted := notedTags?_append_of_some rest hdec.ofNoted
    have hread := readTags?_append_of_some rest hdec.ofRead
    obtain ⟨r', hr', ho⟩ := System.order_steps hdec.run rest
    rw [← since_append, ← hpast] at hr'
    rw [← hpast] at hnoted hread
    refine ⟨noted, read, r', hnoted, hread, hr', ?_⟩
    rw [ho]
    rcases hdec.outcome with ⟨rfl, hsettled⟩ | ⟨rfl, hnot⟩
    · rw [Pipeline.Phase.settlesUnder_of_hasSettled hdec.follows hsettled]
      rfl
    · rw [hnot]
      rfl
  · have hclosing := (calm undisturbed (List.append_nil _).symm).closing
    obtain ⟨more, result, _, _, ha⟩ := exists_answered succeeded hclosing hend
    exact ⟨more, result, ha⟩

/-- The tags of the account are replaced after they have been noted. -/
def retagged : Flight :=
  ordering [] (carriedOut 0 ++
    [.replaceTags ⟨.numbered 8, none, .none⟩ (.numbered 0) ⟨false, true, false⟩, .stepRun 0,
      .pass 20, .stepRun 0, .deliver, .stepRun 0, .stepRun 0, .deliver, .pass 3000])

theorem retagged_undisturbed : retagged.Undisturbed := by
  simp [Undisturbed, retagged, ordering, upTo, carriedOut]

theorem retagged_supplied : retagged.final.Supplied := by
  show retagged.final.works.books.fresh < Id.supply
  decide

/-- A call waits out its time because the tags of its account were replaced. -/
theorem retagged_unconfirmed : ∃ value, retagged.Succeeded value 0 ∧
    retagged.Unshared retagged.after ∧ retagged.Undisturbed ∧
      1 ≤ min retagged.timeout retagged.settings.maxCallTimeout ∧ retagged.final.Supplied ∧
        retagged.notedTags? retagged.after = some .empty ∧
          retagged.readTags? retagged.after 0 = some ⟨false, true, false⟩ ∧
            retagged.answer? = some (.ok .unconfirmed) :=
  ⟨_, ⟨_, rfl, rfl⟩, ordering_unshared rfl rfl, retagged_undisturbed, by decide,
    retagged_supplied, rfl, rfl, rfl⟩

theorem retagged_answer : ∃ value noted read r, retagged.notedTags? retagged.after = some noted ∧
    retagged.readTags? retagged.after 0 = some read ∧ retagged.final.works.runs[0]? = some r ∧
      retagged.answer? = some (.ok (if settlesUnder noted read r.order.amount
        then .completed value else .unconfirmed)) := by
  obtain ⟨value, hs⟩ : ∃ value, retagged.Succeeded value 0 := ⟨_, _, rfl, rfl⟩
  obtain ⟨result, ha⟩ : ∃ result, retagged.answer? = some result := ⟨_, rfl⟩
  obtain ⟨hanswer, _⟩ := answer_of_tags hs (ordering_unshared rfl rfl) retagged_undisturbed
    (by decide) retagged_supplied
  obtain ⟨noted, read, r, hnoted, hread, hr, rfl⟩ := hanswer result ha
  exact ⟨value, noted, read, r, hnoted, hread, hr, ha⟩

/-! ## Whose run it was -/

/-- A call has been completed by an event of a run: a command of the same token started the run, the
run had announced the event, and it settled under the tags that the call had noted. -/
structure Cause (f : Flight) (tags : ControlTagSet) (k : Nat) : Prop where
  noted : f.notedTags? f.after = some tags
  command : ∃ (j : Nat) (m : Submitted), f.final.commands[j]? = some m ∧
    m.context.token = f.context.token ∧ m.stage.run? = some k
  completes : ∃ past rest p v, f.upTo f.after = past ++ .deliver :: rest ∧
    f.opened.Completes past p k f.number v ∧ v.token = f.context.token ∧ v.tags = tags

/-- If no other command bears the token, a call is completed by its own run. -/
theorem Cause.own {tags : ControlTagSet} {k : Nat} (h : f.Cause tags k) (hs : f.Succeeded value n)
    (hu : f.Unshared f.after) : k = n := by
  obtain ⟨j, m, hm, htok, hk⟩ := h.command
  obtain ⟨m', hm', hdone⟩ := hs
  rw [hu j m hm htok, hm'] at hm
  cases hm
  rw [hdone] at hk
  cases hk
  rfl

theorem exists_source {past rest : List Action} {p : Pipeline.Publication} {k : Nat}
    (h : f.opened.AnnouncedBy past p k) (he : f.upTo f.after = past ++ rest) :
    ∃ (j : Nat) (m : Submitted), f.final.commands[j]? = some m ∧ m.context.token = p.token ∧
      m.stage.run? = some k := by
  obtain ⟨_, r, hr, htok⟩ := h
  have hsound : (f.opened.steps past).Sound :=
    (System.Sound.opened f.settings f.hash f.opening).steps past
  obtain ⟨j, m, hm, hk⟩ := hsound.linked.source hr
  obtain ⟨r', hr', htok'⟩ := hsound.linked.started hm hk
  rw [hr] at hr'
  cases hr'
  obtain ⟨m', hm', hctx, hk'⟩ := System.run?_steps hm hk rest
  refine ⟨j, m', ?_, ?_, hk'⟩
  · rw [final, since, he, System.steps_append]
    exact hm'
  · rw [hctx, ← htok', htok]

theorem exists_cause {past rest : List Action} {c : Call Subscription} {m : Submitted}
    {v : Completion.Waiter} (hpast : f.after = past ++ rest) (hst : f.Status past c m)
    (hv : c.phase.waiter? = some v)
    (hcomp : v.number ∈ (f.since past).desk.registry.completed) : ∃ k, f.Cause v.tags k := by
  obtain ⟨before, between, p, k, hbefore, hc⟩ :=
    (f.sourced past).completed ⟨c, hst.call, hv⟩ hcomp
  have he : f.upTo f.after = before ++ .deliver :: (between ++ rest) := by
    rw [hpast, upTo_append, hbefore]
    simp
  have hnoted := notedTags?_append_of_some rest (hst.noted hv)
  rw [← hpast] at hnoted
  obtain ⟨j, m', hm', htok, hk⟩ := exists_source hc.announced he
  refine ⟨k, hnoted, ⟨j, m', hm', ?_, hk⟩, before, _, p, v, he, hc, hst.token hv, rfl⟩
  rw [htok, hc.token, hst.token hv]

theorem hasFiled_of_completed {past rest : List Action} {c : Call Subscription} {m : Submitted}
    {v : Completion.Waiter} (hs : f.Succeeded value n) (hu : f.Unshared f.after)
    (haddr : f.Addressed) (hsteady : f.Steady f.after n) (hf : f.final.Supplied)
    (hpast : f.after = past ++ rest) (hst : f.Status past c m) (hn : m.stage.run? = some n)
    (hv : c.phase.waiter? = some v)
    (hcomp : v.number ∈ (f.since past).desk.registry.completed) :
    f.readTags? f.after n = some v.tags ∧ f.final.HasFiled n := by
  have hf' := supplied_before hf hpast
  obtain ⟨r, hr, _⟩ := hst.run hn
  rcases told_iff_hasSettled hst (hu.before hpast) hf' hv hn hr with
    ⟨_, hnot⟩ | ⟨read, hread, hfol, ht⟩
  · exact absurd (Or.inl hcomp) hnot
  · obtain rfl := read_eq_noted hs hpast haddr (hsteady.before hpast) hf' (hst.noted hv) hread
    have hfiled : (f.since past).HasFiled n :=
      ⟨r, hr, Pipeline.Phase.isFiled_of_hasSettled hfol (ht.mp (Or.inl hcomp))⟩
    have hread := readTags?_append_of_some rest hread
    rw [← hpast] at hread
    refine ⟨hread, ?_⟩
    rw [final, hpast, since_append]
    exact hfiled.steps rest

/-- A call that is answered as completed has been completed by a run of its token. If no other
command bears the token, this is its own run; and if the tags of the account were not replaced in
between, they are those that the run has read, and all that the run ever writes is in the store. -/
theorem completed_by_run {x : Subscription} (succeeded : f.Succeeded value n)
    (answered : f.answer? = some (.ok (.completed x))) :
    x = value ∧ ∃ tags k, f.Cause tags k ∧ (f.Unshared f.after → k = n) ∧
      (f.Unshared f.after → f.Addressed → f.Steady f.after n → f.final.Supplied →
        f.readTags? f.after n = some tags ∧ f.Filed n) := by
  obtain ⟨past, rest, c, m, o, hpast, hst, hdone, ho, hans⟩ := exists_answer succeeded answered
  cases ho
  obtain ⟨rfl, v, hv, hcomp⟩ := hans.completed
  have hn : m.stage.run? = some n := by rw [hdone]; rfl
  obtain ⟨k, hcause⟩ := exists_cause hpast hst hv hcomp
  refine ⟨rfl, v.tags, k, hcause, hcause.own succeeded, fun hu haddr hsteady hf => ?_⟩
  obtain ⟨hread, hfiled⟩ :=
    hasFiled_of_completed succeeded hu haddr hsteady hf hpast hst hn hv hcomp
  exact ⟨hread, filed hfiled hf⟩

theorem plain_told : ∃ value tags, plain.answer? = some (.ok (.completed value)) ∧
    plain.Cause tags 0 ∧ plain.readTags? plain.after 0 = some tags ∧ plain.Filed 0 := by
  obtain ⟨value, hs⟩ : ∃ value, plain.Succeeded value 0 := ⟨_, _, rfl, rfl⟩
  obtain ⟨x, ha⟩ : ∃ x, plain.answer? = some (.ok (.completed x)) := ⟨_, rfl⟩
  have hu : plain.Unshared plain.after := ordering_unshared rfl rfl
  obtain ⟨_, tags, k, hcause, hown, hfiled⟩ := completed_by_run hs ha
  obtain rfl := hown hu
  obtain ⟨hread, hfiled⟩ := hfiled hu ⟨_, rfl, rfl⟩ (steady_of_not_retagged (by decide))
    (by show plain.final.works.books.fresh < Id.supply; decide)
  exact ⟨x, tags, ha, hcause, hread, hfiled⟩

/-- A plan is ordered under the token of a command whose billing is still going on. -/
def shared : Flight :=
  ordering
    (.submit ⟨.numbered 7, some (.numbered 0), .none⟩ false 0
      (.create (.numbered 0) "trial-monthly") :: carriedOut 0)
    (carriedOut 1 ++
      [.stepRun 0, .stepRun 1, .pass 20, .stepRun 0, .stepRun 1, .deliver, .deliver, .pass 40,
        .stepRun 0, .deliver, .poll 1])

/-- A call is answered as completed before its own run has announced anything that settles, or has
written its invoice. -/
theorem shared_completed : ∃ value, shared.Succeeded value 1 ∧
    shared.answer? = some (.ok (.completed value)) ∧
      shared.readTags? shared.after 1 = some .empty ∧
        (∀ e, shared.opened.Announces (shared.upTo shared.after) 1 e →
          settles .empty e = false) ∧ ¬ shared.Filed 1 := by
  refine ⟨_, ⟨_, rfl, rfl⟩, rfl, rfl, fun e he => ?_, fun h => ?_⟩
  · rw [System.announces_iff] at he
    revert e
    decide
  · obtain ⟨i, hi⟩ : ∃ i, ((shared.opened.steps (shared.upTo shared.after)).step
        (.stepRun 1)).store.invoice? (.numbered 5) = some i := ⟨_, rfl⟩
    have hid : i.id = .numbered 5 := Store.id_of_invoice? hi
    have hnone : shared.final.store.invoice? (.numbered 5) = none := rfl
    have hwrites : shared.opened.Writes (shared.upTo (shared.after ++ [.stepRun 1])) 1
        (·.invoice? i.id = some i) := by
      refine ⟨shared.upTo shared.after, [], rfl, ?_, ?_⟩
      · rw [hid]
        exact fun hs => nomatch hnone.symm.trans hs
      · rw [hid]
        exact hi
    obtain ⟨balance, hfound, _⟩ := h.invoices hwrites
    rw [hid, hnone] at hfound
    cases hfound

end Billing.Service.Flight
