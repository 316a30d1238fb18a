import Billing.Proofs.Fetch.Modes
import Billing.Proofs.Service.Isolation
import Billing.Proofs.Wire.Records

/-!
# What a timeline shows

The five sources of a timeline end each in its own way, and only that of the account may fail. So
it does not matter in which mode they are read, how long they take and which of them is seen to end
first: as long as there is time, the answer is the same. It shows what was created for the account.
What happens to other accounts changes nothing of it but the places of records of one moment.
-/

namespace Billing

/-- What has been created for an account. -/
def Created.of (made : Created) (id : AccountId) : Created where
  subscriptions := made.subscriptions.filter fun x => x.account = id
  invoices := made.invoices.filter fun i => i.account = id
  payments := made.payments.filter fun p => p.account = id
  audit := made.audit.filter fun e => e.account = id

/-- No two records of one kind that are kept of an account are of one moment. -/
structure Store.Untied (s : Store) (id : AccountId) : Prop where
  subscriptions : ((s.subscriptions.filter fun x => x.account = id).map (·.createdAt)).Nodup
  invoices : ((s.invoices.filter fun i => i.account = id).map (·.createdAt)).Nodup
  payments : ((s.payments.filter fun p => p.account = id).map (·.createdAt)).Nodup

namespace Service

open Fetch
open Store (Lists Spares Tied)

variable {s t : Store} {o o' : Scans} {id : AccountId} {delay : String → Nat} {made : Created}

/-! ## The answer -/

/-- What the timeline of an account comes to. -/
def timelineAnswer (s : Store) (o : Scans) (id : AccountId) :
    Except (Failure DomainError) (Outcome Json) :=
  match s.account? id with
  | none => .error (.source "account" (.notFound ("account " ++ id.text)))
  | some a =>
    .ok (.complete
      [("account", a.toJson),
        ("auditLogs", .array ((s.auditFor id).map AuditEntry.toJson)),
        ("bundles", .array ((s.subscriptionsFor o id).map Subscription.toJson)),
        ("invoices", .array ((s.invoicesFor o id).map Invoice.toJson)),
        ("payments", .array ((s.paymentsFor o id).map Payment.toJson))])

/-- A timeline tells of an account: that there is none, or the account, what was created for it,
and its audit log in the order in which it was written. Every record is told in full, so that it can
be read back. -/
inductive TimelineOf (made : Created) (s : Store) (id : AccountId) :
    Except (Failure DomainError) (Outcome Json) → Prop where
  | unknown (unknown : s.account? id = none) :
      TimelineOf made s id (.error (.source "account" (.notFound ("account " ++ id.text))))
  | known {a : Account} {bundles : List Subscription} {invoices : List Invoice}
      {payments : List Payment} {account auditLogs bundled invoiced paid : Json}
      (found : s.account? id = some a)
      (bundles_listed : Lists Subscription.Becomes (·.createdAt) (made.of id).subscriptions
        (s.subscriptions.filter fun x => x.account = id) bundles)
      (invoices_listed : Lists Invoice.SameBut (·.createdAt) (made.of id).invoices
        (s.invoices.filter fun i => i.account = id) invoices)
      (payments_listed : Lists Eq (·.createdAt) (made.of id).payments
        (s.payments.filter fun p => p.account = id) payments)
      (account_told : Json.Tells Account.toJson Account.ofJson? account a)
      (auditLogs_told :
        Json.Lists AuditEntry.toJson AuditEntry.ofJson? auditLogs (made.of id).audit)
      (bundles_told : Json.Lists Subscription.toJson Subscription.ofJson? bundled bundles)
      (invoices_told : Json.Lists Invoice.toJson Invoice.ofJson? invoiced invoices)
      (payments_told : Json.Lists Payment.toJson Payment.ofJson? paid payments) :
      TimelineOf made s id (.ok (.complete
        [("account", account), ("auditLogs", auditLogs), ("bundles", bundled),
          ("invoices", invoiced), ("payments", paid)]))

/-- Where the store holds what has been created, the answer tells of it. -/
theorem timelineOf_answer (h : made.Stand s) (o : Scans) (id : AccountId) :
    TimelineOf made s id (timelineAnswer s o id) := by
  unfold timelineAnswer
  split
  · rename_i hunknown
    exact .unknown hunknown
  · rename_i a ha
    have haudit : s.auditFor id = (made.of id).audit := by
      rw [Store.auditFor, ← h.audit]
      rfl
    rw [haudit]
    refine .known ha (Store.lists_sorted o.subscriptions _ h.subscriptions fun x y hxy => ?_)
      (Store.lists_sorted o.invoices _ h.invoices fun i j hij => ?_)
      (Store.lists_sorted o.payments _ (List.forall₂_eq_eq_eq ▸ h.payments) fun p q hpq => ?_)
      (Json.tells_toJson Account.ofJson?_toJson a)
      (Json.lists_array AuditEntry.ofJson?_toJson _)
      (Json.lists_array Subscription.ofJson?_toJson _)
      (Json.lists_array Invoice.ofJson?_toJson _) (Json.lists_array Payment.ofJson?_toJson _)
    · rw [hxy.account]
    · obtain ⟨balance, rfl⟩ := hij
      rfl
    · rw [hpq]

/-! ## Told again -/

/-- A timeline is told again: it shows the same account, audit log and records, but records of one
kind and one moment may have changed places. -/
inductive Retold : Except (Failure DomainError) (Outcome Json) →
    Except (Failure DomainError) (Outcome Json) → Prop where
  | failed (e : Failure DomainError) : Retold (.error e) (.error e)
  | known {bundles bundles' : List Subscription} {invoices invoices' : List Invoice}
      {payments payments' : List Payment}
      {account auditLogs bundled bundled' invoiced invoiced' paid paid' : Json}
      (bundles_tied : Tied (·.createdAt) bundles bundles')
      (invoices_tied : Tied (·.createdAt) invoices invoices')
      (payments_tied : Tied (·.createdAt) payments payments')
      (bundles_told : Json.Lists Subscription.toJson Subscription.ofJson? bundled bundles)
      (bundles_told' : Json.Lists Subscription.toJson Subscription.ofJson? bundled' bundles')
      (invoices_told : Json.Lists Invoice.toJson Invoice.ofJson? invoiced invoices)
      (invoices_told' : Json.Lists Invoice.toJson Invoice.ofJson? invoiced' invoices')
      (payments_told : Json.Lists Payment.toJson Payment.ofJson? paid payments)
      (payments_told' : Json.Lists Payment.toJson Payment.ofJson? paid' payments') :
      Retold
        (.ok (.complete [("account", account), ("auditLogs", auditLogs), ("bundles", bundled),
          ("invoices", invoiced), ("payments", paid)]))
        (.ok (.complete [("account", account), ("auditLogs", auditLogs), ("bundles", bundled'),
          ("invoices", invoiced'), ("payments", paid')]))

/-- A store that holds the same of an account has the same to tell of it. -/
theorem retold_answer (h : Spares id s t) (o o' : Scans) :
    Retold (timelineAnswer s o id) (timelineAnswer t o' id) := by
  obtain ⟨hbundles, hinvoices, hpayments⟩ := h.tied o o'
  have haudit : t.auditFor id = s.auditFor id := h.audit
  unfold timelineAnswer
  rw [h.account, haudit]
  cases s.account? id with
  | none => exact .failed _
  | some a =>
      exact .known hbundles hinvoices hpayments
        (Json.lists_array Subscription.ofJson?_toJson _)
        (Json.lists_array Subscription.ofJson?_toJson _)
        (Json.lists_array Invoice.ofJson?_toJson _) (Json.lists_array Invoice.ofJson?_toJson _)
        (Json.lists_array Payment.ofJson?_toJson _) (Json.lists_array Payment.ofJson?_toJson _)

/-- Without ties it tells it in the same words. -/
theorem timelineAnswer_eq (h : Spares id s t) (hu : s.Untied id) (o o' : Scans) :
    timelineAnswer t o' id = timelineAnswer s o id := by
  obtain ⟨hbundles, hinvoices, hpayments⟩ := h.tied o o'
  have haudit : t.auditFor id = s.auditFor id := h.audit
  unfold timelineAnswer
  rw [h.account, haudit,
    hbundles.eq_of_nodup (o.subscriptions.nodup_sorted _ _ _ hu.subscriptions),
    hinvoices.eq_of_nodup (o.invoices.nodup_sorted _ _ _ hu.invoices),
    hpayments.eq_of_nodup (o.payments.nodup_sorted _ _ _ hu.payments)]

/-! ## The sources -/

theorem names_timelineSources : ((timelineSources s o id delay).map (·.name)).Nodup := by
  rw [show (timelineSources s o id delay).map (·.name) =
    ["account", "bundles", "invoices", "payments", "auditLogs"] from rfl]
  decide

theorem mem_timelineSources {f : Source Json DomainError} :
    f ∈ timelineSources s o id delay ↔ ∃ name answer, (name, answer) ∈ timelineReads s o id ∧
      f = ⟨name, .after (delay name), readEnding answer⟩ := by
  simp only [timelineSources, List.mem_map, Prod.exists, eq_comm]

theorem trigger_timelineSources : ∀ f ∈ timelineSources s o id delay,
    f.trigger = .after (delay f.name) := by
  intro f hf
  obtain ⟨_, _, _, rfl⟩ := mem_timelineSources.mp hf
  rfl

theorem sound_timelineSources : ∀ f ∈ timelineSources s o id delay, f.ending ≠ .crash := by
  intro f hf
  obtain ⟨_, answer, _, rfl⟩ := mem_timelineSources.mp hf
  cases answer <;> nofun

/-- Only the account may fail to be read. -/
theorem failsOnce_timelineSources : FailsOnce (timelineSources s o id delay) := by
  have hname : ∀ f ∈ timelineSources s o id delay, ∀ e, f.ending = .error e →
      f.name = "account" := by
    intro f hf e he
    simp only [timelineSources, timelineReads, List.map_cons, List.map_nil, List.mem_cons,
      List.not_mem_nil, or_false] at hf
    rcases hf with rfl | rfl | rfl | rfl | rfl
    · rfl
    all_goals cases he
  intro f hf g hg d e hd he
  exact List.inj_on_of_nodup_map names_timelineSources hf hg
    ((hname f hf d hd).trans (hname g hg e he).symm)

theorem settles_timelineSources :
    Settles (timelineSources s o id delay) (timelineAnswer s o id) := by
  unfold timelineAnswer
  cases ha : s.account? id with
  | none =>
      refine .failed List.mem_cons_self ?_
      simp only [Store.account, ha]
      rfl
  | some a =>
      refine .complete (fun f hf => ?_) ⟨?_, ?_⟩
      · simp only [timelineSources, timelineReads, Store.account, ha, List.map_cons, List.map_nil,
          List.mem_cons, List.not_mem_nil, or_false] at hf
        rcases hf with rfl | rfl | rfl | rfl | rfl <;> rfl
      · have hrising : ["account", "auditLogs", "bundles", "invoices", "payments"].Pairwise
            (· < ·) := by decide
        exact List.pairwise_map.mp hrising
      · -- The values stand in the order of their names, the sources in that of their submission.
        simp only [timelineSources, timelineReads, Store.account, ha, Except.map, readEnding,
          List.map_cons, List.map_nil, List.mem_cons, List.not_mem_nil, or_false, Prod.mk.injEq,
          exists_eq_or_imp, exists_eq_left, Ending.value.injEq]
        grind

/-! ## Runs -/

theorem eq_timelineAnswer {r : Except (Failure DomainError) (Outcome Json)}
    (h : Settles (timelineSources s o id delay) r) : r = timelineAnswer s o id :=
  h.unique failsOnce_timelineSources settles_timelineSources

/-- Sources that take as long as they like, but are read in time. -/
theorem aggregate_timelineSources {mode : Mode} {c : Circumstances} (hcalm : c.interruptAt = none)
    (hdrop : c.dropAt = none)
    (htime : mode.span ((timelineSources s o id delay).map fun f => delay f.name) < c.deadline)
    (cancelled : Cancelled) :
    (aggregate mode c (timelineSources s o id delay) cancelled).verdict =
      .answered (timelineAnswer s o id) := by
  obtain ⟨r, hanswer, hset⟩ := aggregate_settles hdrop hcalm names_timelineSources
    sound_timelineSources mode _ trigger_timelineSources htime cancelled
  rw [hanswer, eq_timelineAnswer hset]

/-- Sources that answer at once are read before any deadline. -/
theorem timeline_prompt (mode : Mode) {deadline : Nat} (hdeadline : 0 < deadline) (s : Store)
    (o : Scans) (id : AccountId) :
    timeline mode deadline false s o id = .answered (timelineAnswer s o id) := by
  show (aggregate mode (.under (.root 0) 0 deadline none none)
    (timelineSources s o id fun _ => 0) .none).verdict = _
  refine aggregate_timelineSources rfl rfl ?_ .none
  cases mode <;> exact hdeadline

/-- Whatever is seen first, and however late. -/
theorem observed_timelineSources {mode : Mode} {c : Circumstances} {cancelled : Cancelled}
    {v : Verdict Json DomainError} {values : Values Json} {time : Nat}
    (hcalm : c.interruptAt = none) (hdrop : c.dropAt = none)
    (h : Observed c (timelineSources s o id delay) cancelled mode v values time)
    (htime : time < c.deadline) : v = .answered (timelineAnswer s o id) := by
  have hconcludes := h.concludes names_timelineSources
  obtain ⟨r, rfl, hset⟩ :=
    hconcludes.settles hdrop hcalm names_timelineSources sound_timelineSources htime
  rw [eq_timelineAnswer hset]

namespace System

/-- The timeline of an account comes to this, however it is read in time: by the service itself,
from sources that take as long as they like, and whatever is seen first. -/
structure Answers (s : System) (id : AccountId)
    (r : Except (Failure DomainError) (Outcome Json)) : Prop where
  asked : s.isClosed = false → 0 < s.fetchDeadline → s.timeline id = .answered r
  prompt : ∀ mode deadline, 0 < deadline →
    Service.timeline mode deadline false s.store s.scans id = .answered r
  delayed : ∀ (mode : Mode) (c : Circumstances) (delay : String → Nat) cancelled,
    c.interruptAt = none → c.dropAt = none →
      mode.span ((timelineSources s.store s.scans id delay).map fun f => delay f.name) <
        c.deadline →
        (aggregate mode c (timelineSources s.store s.scans id delay) cancelled).verdict =
          .answered r
  observed : ∀ mode (c : Circumstances) (delay : String → Nat) cancelled v values time,
    c.interruptAt = none → c.dropAt = none →
      Observed c (timelineSources s.store s.scans id delay) cancelled mode v values time →
        time < c.deadline → v = .answered r

theorem answers_timelineAnswer (s : System) (id : AccountId) :
    s.Answers id (timelineAnswer s.store s.scans id) where
  asked hopen hdeadline := by
    rw [System.timeline, hopen]
    exact timeline_prompt _ hdeadline s.store s.scans id
  prompt mode _ hdeadline := timeline_prompt mode hdeadline s.store s.scans id
  delayed _ _ _ cancelled hcalm hdrop htime := aggregate_timelineSources hcalm hdrop htime cancelled
  observed _ _ _ _ _ _ _ hcalm hdrop h htime := observed_timelineSources hcalm hdrop h htime

/-- In every state that is reached, by any actions in any order, the timeline of every account tells
of it: what was created for it by then is shown, as it stands now and in the order of its creation,
and nothing else. In every mode it comes to this, as long as there is time and nobody interrupts
it. After actions that are about other accounts it tells the same, up to the places of records of
one moment; where no two are of one moment, it is the same answer. -/
theorem timeline_exact (settings : Config.Settings) (hash : CorrelationToken → UInt64)
    (now : Instant) {made : Created} {s : System}
    (history : (System.opened settings hash now).History made s) (supplied : s.Supplied)
    (id : AccountId) :
    ∃ r, TimelineOf made s.store id r ∧ s.Answers id r ∧
      ∀ as, (s.steps as).Supplied → s.Avoids id as →
        ∃ r', (s.steps as).Answers id r' ∧ Retold r r' ∧ (s.store.Untied id → r' = r) := by
  refine ⟨_, timelineOf_answer (history.stand supplied) s.scans id, answers_timelineAnswer s id,
    fun as hsupplied havoids => ?_⟩
  have hspares : Spares id s.store (s.steps as).store :=
    spares_steps (history.leads.attributed supplied)
      (history.leads.stocked (.opened settings hash now) supplied) hsupplied havoids
  refine ⟨_, answers_timelineAnswer (s.steps as) id, ?_, fun huntied => ?_⟩
  · exact retold_answer hspares s.scans (s.steps as).scans
  · exact timelineAnswer_eq hspares huntied s.scans (s.steps as).scans

/-! ### Two accounts -/

/-- Another account is created and gets its tags, a plan is ordered for it, and its run begins. -/
def elsewhere : List Action :=
  [.createAccount ⟨.numbered 8, none, .none⟩ ⟨"Beta", 0, .empty, true⟩, .audit 1,
    .replaceTags ⟨.numbered 9, some (.numbered 3), .none⟩ (.numbered 3) .empty, .audit 1,
    .submit ⟨.numbered 10, some (.numbered 3), .none⟩ false 0
      (.create (.numbered 3) "pro-monthly"),
    .start 1, .enlist 1, .work 1, .work 1, .work 1, .work 1, .conclude 1, .stepRun 1]

/-- The timeline of the account for which a plan was ordered stays the same. -/
theorem elsewhere_timeline : ∃ made r,
    (System.opened .default (fun _ => 0) .epoch).History made ordered ∧
      TimelineOf made ordered.store (.numbered 0) r ∧
      ordered.timeline (.numbered 0) = .answered r ∧
      (ordered.steps elsewhere).timeline (.numbered 0) = .answered r ∧
      ordered.store.subscriptions.length = 1 ∧
      (ordered.steps elsewhere).store.subscriptions.length = 2 := by
  have hsupplied : (ordered.steps elsewhere).Supplied := by
    show (ordered.steps elsewhere).works.books.fresh < Id.supply
    decide
  have havoids : ordered.Avoids (.numbered 0) elsewhere := by
    simp only [elsewhere, Avoids]
    decide
  have huntied : ordered.store.Untied (.numbered 0) := ⟨by decide, by decide, by decide⟩
  obtain ⟨made, hmade⟩ := ordered_reached.exists_history
  obtain ⟨r, hshows, hanswers, hspared⟩ :=
    timeline_exact .default (fun _ => 0) .epoch hmade hsupplied.of_steps (.numbered 0)
  obtain ⟨r', hlater, _, hsame⟩ := hspared elsewhere hsupplied havoids
  obtain rfl : r' = r := hsame huntied
  exact ⟨made, r', hmade, hshows, hanswers.asked rfl (by decide), hlater.asked rfl (by decide),
    rfl, rfl⟩

/-! ### Ties and tokens -/

/-- Rows come as they lie, or the other way round if their number is odd. -/
def turning {α : Type} : Scan α where
  list rows := if rows.length % 2 = 0 then rows else rows.reverse
  perm rows := by
    split
    · exact .refl rows
    · exact rows.reverse_perm

/-- Two plans are ordered for an account in one moment. -/
def tied : System :=
  ((ordered.submit ⟨.numbered 8, some (.numbered 0), .none⟩ false 0
    (.create (.numbered 0) "basic-monthly")).2).step (.rearrange ⟨turning, turning, turning⟩)

/-- Another account is created, and a plan is ordered for it. -/
def beside : List Action :=
  [.createAccount ⟨.numbered 9, none, .none⟩ ⟨"Beta", 0, .empty, true⟩, .audit 1,
    .submit ⟨.numbered 10, some (.numbered 5), .none⟩ false 0 (.create (.numbered 5) "pro-monthly"),
    .start 2, .enlist 2, .work 2, .work 2]

/-- Two accounts are created. -/
def both : System :=
  (System.opened .default (fun _ => 0) .epoch).steps
    [.createAccount ⟨.numbered 7, none, .none⟩ ⟨"Acme", 0, .empty, true⟩, .audit 0,
      .createAccount ⟨.numbered 8, none, .none⟩ ⟨"Beta", 0, .empty, true⟩, .audit 0]

/-- A plan is ordered for an account, always under the same token, by a call that waits. -/
def orders (call : Nat) (account : AccountId) : List Action :=
  [.submit ⟨.numbered 9, some account, .none⟩ true 1000 (.create account "pro-monthly"),
    .start call, .enlist call, .work call, .work call]

/-- Answers that are the same list the same subscriptions. -/
theorem subscriptionsFor_of_timeline {s t : System} {id : AccountId} {a : Account}
    (hs : s.isClosed = false) (ht : t.isClosed = false) (hd : 0 < s.fetchDeadline)
    (he : 0 < t.fetchDeadline) (ha : s.store.account? id = some a)
    (hb : t.store.account? id = some a) (h : s.timeline id = t.timeline id) :
    s.store.subscriptionsFor s.scans id = t.store.subscriptionsFor t.scans id := by
  rw [(answers_timelineAnswer s id).asked hs hd, (answers_timelineAnswer t id).asked ht he] at h
  simp only [timelineAnswer, ha, hb, Verdict.answered.injEq, Except.ok.injEq,
    Outcome.complete.injEq, List.cons.injEq, Prod.mk.injEq] at h
  obtain ⟨-, -, ⟨-, hbundles⟩, -⟩ := h
  have hread := (Json.lists_array Subscription.ofJson?_toJson
    (s.store.subscriptionsFor s.scans id)).read
  rw [hbundles, (Json.lists_array Subscription.ofJson?_toJson _).read] at hread
  exact (Option.some.inj hread).symm

/-- Two subscriptions of one moment change places when one is stored for another account; and
where a call for another account waits under the token of a call for this account, this one is
refused, and its plan is not ordered. -/
theorem timeline_disturbed :
    ((System.opened .default (fun _ => 0) .epoch).Leads tied ∧ tied.Avoids (.numbered 0) beside ∧
      (tied.steps beside).timeline (.numbered 0) ≠ tied.timeline (.numbered 0)) ∧
    (both.Avoids (.numbered 0) (orders 0 (.numbered 1)) ∧
      (both.steps (orders 0 (.numbered 1) ++ orders 1 (.numbered 0))).timeline (.numbered 0) ≠
        (both.steps (orders 0 (.numbered 0))).timeline (.numbered 0)) := by
  refine ⟨⟨?_, ?_, fun h => ?_⟩, ?_, fun h => ?_⟩
  · exact (ordered_reached.trans (leads_submit _ _ _ _ _)).step _
  · simp only [beside, Avoids]
    decide
  · have hlists := subscriptionsFor_of_timeline rfl rfl (by decide) (by decide) rfl rfl h
    rw [Store.subscriptionsFor, Store.subscriptionsFor, Scan.sorted_of_pairwise _ _ _ _ (by decide),
      Scan.sorted_of_pairwise _ _ _ _ (by decide)] at hlists
    revert hlists
    decide
  · simp only [orders, Avoids]
    decide
  · have hlists := subscriptionsFor_of_timeline rfl rfl (by decide) (by decide) rfl rfl h
    have hlengths := congrArg List.length hlists
    rw [Store.subscriptionsFor, Store.subscriptionsFor, (Scan.sorted_perm _ _ _ _).length_eq,
      (Scan.sorted_perm _ _ _ _).length_eq] at hlengths
    revert hlengths
    decide

end System

end Service

end Billing
