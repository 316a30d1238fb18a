import Billing.Proofs.Pipeline.Charges
import Billing.Proofs.Service.Executions

/-!
# Runs without invoices

A run that has read that invoices are suppressed takes four steps, in which it announces the
transition and the blocking state, whatever others do in between. It stores a draft at most, and
writes nothing else.
-/

namespace Billing

/-! ## The steps of a run -/

namespace Pipeline

/-- Stores invoices, for each of which an identifier is spent. -/
def Books.putInvoices (b : Books) (is : List Invoice) : Books :=
  is.foldl (fun b i => ⟨b.store.insertInvoice i, b.fresh + 1⟩) b

/-- A draft is wanted for an order under these tags. -/
def Order.WantsDraft (o : Order) (tags : ControlTagSet) : Prop :=
  tags.autoInvoicingDraft = true ∧ o.amount.value ≠ 0

/-- The invoices that are stored for an order under tags that suppress invoices. -/
inductive Order.Drafts (o : Order) (tags : ControlTagSet) : List Invoice → Prop where
  | none (unwanted : ¬ o.WantsDraft tags) : o.Drafts tags []
  | one {id : InvoiceId} {now : Instant} (wanted : o.WantsDraft tags) :
      o.Drafts tags [o.invoice id .draft now]

/-- The transition of an order as it is announced. -/
def Order.announcedTransition (o : Order) : DomainEvent :=
  .subscriptionTransition o.subscription o.transition 0

/-- A blocking state of the subscription of an order as it is announced. -/
def Order.announcedBlocking (o : Order) (state : String) : DomainEvent :=
  .blockingStateChange (some o.subscription) state

/-- Where a run stands that reads that invoices are suppressed: the number of its steps, what it has
announced, and what it has stored. -/
inductive Phase.Suppressed (o : Order) (t : Terms) :
    Phase → Nat → List DomainEvent → List Invoice → Prop where
  | queued : Suppressed o t .queued 0 [] []
  | transitioning : Suppressed o t (.transitioning t) 1 [] []
  | drafting : Suppressed o t (.drafting t) 2 [o.announcedTransition] []
  | blocking {is : List Invoice} (drafts : o.Drafts t.tags is) :
      Suppressed o t (.blocking t) 3 [o.announcedTransition] is
  | ended {is : List Invoice} (drafts : o.Drafts t.tags is) :
      Suppressed o t .ended 4 [o.announcedTransition, o.announcedBlocking (blockingState t.tags)] is

variable {o : Order} {t : Terms} {p : Phase} {k : Nat} {es : List DomainEvent} {is : List Invoice}

theorem Phase.Suppressed.step (h : p.Suppressed o t k es is)
    (ht : t.tags.invoicingSuppressed = true) (hp : p ≠ .ended) {b : Books}
    (hread : p = .queued → ∃ a, b.store.account? o.account = some a ∧ t = .ofAccount a)
    (now : Instant) : ∃ js, (p.step o b now).books = b.putInvoices js ∧
      (p.step o b now).phase.Suppressed o t (k + 1) (es ++ (p.step o b now).event.toList)
        (is ++ js) := by
  cases h with
  | queued =>
      obtain ⟨a, ha, rfl⟩ := hread rfl
      rw [step_known ha]
      exact ⟨[], rfl, .transitioning⟩
  | transitioning =>
      simp only [Phase.step, ht, if_true]
      exact ⟨[], rfl, .drafting⟩
  | drafting =>
      simp only [Phase.step]
      split
      · rename_i hw
        exact ⟨[_], rfl, .blocking (.one hw)⟩
      · rename_i hw
        exact ⟨[], rfl, .blocking (.none hw)⟩
  | blocking hd =>
      refine ⟨[], rfl, ?_⟩
      rw [List.append_nil]
      exact .ended hd
  | ended => exact absurd rfl hp

theorem Phase.Suppressed.announced (h : p.Suppressed o t k es is) :
    es <+: [o.announcedTransition, o.announcedBlocking (blockingState t.tags)] ∧
      (p = .ended → es = [o.announcedTransition, o.announcedBlocking (blockingState t.tags)]) := by
  cases h with
  | queued => exact ⟨List.nil_prefix, nofun⟩
  | transitioning => exact ⟨List.nil_prefix, nofun⟩
  | drafting => exact ⟨⟨_, rfl⟩, nofun⟩
  | blocking => exact ⟨⟨_, rfl⟩, nofun⟩
  | ended => exact ⟨List.prefix_rfl, fun _ => rfl⟩

theorem Order.Drafts.eq_nil (h : o.Drafts t.tags is) (hw : ¬ o.WantsDraft t.tags) : is = [] := by
  cases h with
  | none => rfl
  | one hw' => exact absurd hw' hw

theorem Order.Drafts.eq_one (h : o.Drafts t.tags is) (hw : o.WantsDraft t.tags) :
    ∃ id now, is = [o.invoice id .draft now] := by
  cases h with
  | none hw' => exact absurd hw hw'
  | one => exact ⟨_, _, rfl⟩

theorem Phase.Suppressed.unwanted (h : p.Suppressed o t k es is) (hw : ¬ o.WantsDraft t.tags) :
    is = [] := by
  cases h with
  | blocking hd => exact hd.eq_nil hw
  | ended hd => exact hd.eq_nil hw
  | _ => rfl

theorem Phase.Suppressed.wanted (h : p.Suppressed o t k es is) (hw : o.WantsDraft t.tags) :
    is = [] ∧ k < 3 ∨ ∃ id now, is = [o.invoice id .draft now] := by
  cases h with
  | blocking hd => exact Or.inr (hd.eq_one hw)
  | ended hd => exact Or.inr (hd.eq_one hw)
  | _ => exact Or.inl ⟨rfl, by decide⟩

theorem Phase.Suppressed.steps (h : p.Suppressed o t k es is) :
    k ≤ 4 ∧ (p = .queued ↔ k = 0) ∧ (p = .ended ↔ k = 4) := by
  cases h <;> simp

end Pipeline

/-! ## Runs among other actions -/

namespace Service.System

open Pipeline (Order Phase Run Terms Works blockingState)

variable {s : System} {a : Action} {as past rest : List Action} {n k : Nat} {r : Run} {o : Order}
  {t : Terms} {is : List Invoice}

/-- A run has taken so many steps, in which it has stored these invoices and has written nothing
else. -/
inductive Puts (s : System) (n : Nat) : List Action → Nat → List Invoice → Prop where
  | nil : Puts s n [] 0 []
  | other {as : List Action} {k : Nat} {is : List Invoice} (h : Puts s n as k is) {a : Action}
      (still : a = .stepRun n → (s.steps as).works.mover? n = none) : Puts s n (as ++ [a]) k is
  | own {as : List Action} {k : Nat} {is : List Invoice} (h : Puts s n as k is) {r : Run}
      (mover : (s.steps as).works.mover? n = some r) {js : List Invoice}
      (books : ((s.steps as).works.stepRun n).books = (s.steps as).works.books.putInvoices js) :
      Puts s n (as ++ [.stepRun n]) (k + 1) (is ++ js)

theorem announcements_concat (s : System) (n : Nat) (as : List Action) (a : Action) :
    s.announcements n (as ++ [a]) = s.announcements n as ++
      if a.run? = some n then ((s.steps as).works.announced? n).toList else [] := by
  induction as generalizing s with
  | nil => exact List.append_nil _
  | cons b as ih =>
      rw [List.cons_append, announcements, ih, ← List.append_assoc]
      rfl

theorem run?_eq_some_iff : a.run? = some n ↔ a = .stepRun n := by
  cases a <;> simp [Action.run?]

/-- An action in which a run takes no step announces nothing for it, and leaves it. -/
theorem still_concat (hs : a = .stepRun n → (s.steps as).works.mover? n = none) :
    s.announcements n (as ++ [a]) = s.announcements n as ∧
      ∀ {r}, (s.steps as).works.runs[n]? = some r →
        (s.steps (as ++ [a])).works.runs[n]? = some r := by
  refine ⟨?_, fun {r} hr => ?_⟩
  · rw [announcements_concat]
    split
    · rename_i ha
      rw [Works.announced?, hs (run?_eq_some_iff.mp ha)]
      exact List.append_nil _
    · exact List.append_nil _
  · rw [steps_concat]
    rcases ((s.steps as).step_effect a).run hr with hr | hstep
    · exact hr
    · have hmover := hstep.mover
      rw [hs hstep.action] at hmover
      cases hmover

/-- A run that has not left its queue has announced and written nothing. -/
theorem nothing_before (h : ∀ r, (s.steps as).works.runs[n]? = some r → r.phase = .queued) :
    s.announcements n as = [] ∧ s.Puts n as 0 [] := by
  induction as using List.reverseRecOn with
  | nil => exact ⟨rfl, .nil⟩
  | append_singleton as a ih =>
      have hstill : a = .stepRun n → (s.steps as).works.mover? n = none := by
        rintro rfl
        rw [Option.eq_none_iff_forall_not_mem]
        intro r hr
        have hstep := stepped_of_mover? (s := s.steps as) hr
        rw [steps_concat] at h
        exact Phase.step_ne_queued _ (h _ hstep.run)
      obtain ⟨hann, hrun⟩ := still_concat hstill
      obtain ⟨hnone, hputs⟩ := ih fun r hr => h r (hrun hr)
      exact ⟨hann.trans hnone, hputs.other hstill⟩

/-- A run is followed that has read that invoices are suppressed. -/
structure Hushes (s : System) (as : List Action) (n : Nat) (o : Order) (t : Terms) (r : Run)
    (k : Nat) (is : List Invoice) : Prop where
  run : (s.steps as).works.runs[n]? = some r
  order : r.order = o
  puts : s.Puts n as k is
  stands : r.phase.Suppressed o t k (s.announcements n as) is

theorem Hushes.concat (h : s.Hushes as n o t r k is) (ht : t.tags.invoicingSuppressed = true)
    {a : Action} (hread : a = .stepRun n → r.phase = .queued →
      ∃ b, (s.steps as).store.account? o.account = some b ∧ t = .ofAccount b) :
    ∃ r' k' is', s.Hushes (as ++ [a]) n o t r' k' is' ∧
      (k' = k + 1 ∨ k' = k ∧ (a = .stepRun n → (s.steps as).works.mover? n = none)) := by
  by_cases hstill : a = .stepRun n → (s.steps as).works.mover? n = none
  · obtain ⟨hann, hrun⟩ := still_concat hstill
    exact ⟨r, k, is, ⟨hrun h.run, h.order, h.puts.other hstill, hann.symm ▸ h.stands⟩,
      Or.inr ⟨rfl, hstill⟩⟩
  · rw [Classical.not_imp] at hstill
    obtain ⟨rfl, hm⟩ := hstill
    obtain ⟨r', hm⟩ := Option.ne_none_iff_exists'.mp hm
    obtain ⟨hr, hp, _⟩ := Works.mover?_eq_some_iff.mp hm
    rw [h.run] at hr
    cases hr
    obtain rfl := h.order
    obtain ⟨js, hbooks, hstands⟩ := h.stands.step ht hp (hread rfl) (s.steps as).works.clock
    have hann : s.announcements n (as ++ [.stepRun n]) = s.announcements n as ++
        (r.phase.step r.order (s.steps as).works.books (s.steps as).works.clock).event.toList := by
      rw [announcements_concat, if_pos (run?_eq_some_iff.mpr rfl), Works.announced?, hm]
      rfl
    refine ⟨r.next (s.steps as).works, k + 1, is ++ js, ?_, Or.inl rfl⟩
    exact {
      run := by
        rw [steps_concat]
        exact (stepped_of_mover? hm).run
      order := rfl
      puts := h.puts.own hm (by rw [Works.stepRun_of_mover? hm]; exact hbooks)
      stands := hann.symm ▸ hstands }

theorem Hushes.follow (h : s.Hushes as n o t r k is) (ht : t.tags.invoicingSuppressed = true)
    (hk : 0 < k) (rest : List Action) : ∃ r' k' is', s.Hushes (as ++ rest) n o t r' k' is' := by
  suffices ∃ r' k' is', s.Hushes (as ++ rest) n o t r' k' is' ∧ 0 < k' by
    obtain ⟨r', k', is', h', _⟩ := this
    exact ⟨r', k', is', h'⟩
  induction rest using List.reverseRecOn with
  | nil => exact ⟨r, k, is, by rwa [List.append_nil], hk⟩
  | append_singleton rest a ih =>
      obtain ⟨r', k', is', h', hk'⟩ := ih
      rw [← List.append_assoc]
      obtain ⟨r'', k'', is'', h'', hk''⟩ := h'.concat (a := a) ht fun _ hq => by
        have := h'.stands.steps.2.1.mp hq
        omega
      exact ⟨r'', k'', is'', h'', by omega⟩

/-- What comes of a run that reads that invoices are suppressed. -/
structure Hushed (s : System) (as : List Action) (n : Nat) (o : Order) (tags : ControlTagSet)
    (state : String) (r : Run) (k : Nat) (drafts : List Invoice) : Prop where
  run : (s.steps as).works.runs[n]? = some r
  order : r.order = o
  /-- In its steps it has stored the drafts and written nothing else: no other invoice, and no
  payment. -/
  puts : s.Puts n as k drafts
  /-- It ends with its fourth step. -/
  steps : k ≤ 4 ∧ (r.phase = .ended ↔ k = 4)
  /-- It announces the transition and then the blocking state. -/
  announced : s.announcements n as <+: [o.announcedTransition, o.announcedBlocking state] ∧
    (r.phase = .ended →
      s.announcements n as = [o.announcedTransition, o.announcedBlocking state])
  /-- There is no draft unless one is wanted, and then there is one from its third step on. -/
  unwanted : ¬ o.WantsDraft tags → drafts = []
  wanted : o.WantsDraft tags → drafts = [] ∧ k < 3 ∨ ∃ id now, drafts = [o.invoice id .draft now]

/-- A run that reads in its first step that invoices are turned off stores no invoice and no payment,
and announces the transition and then that invoices are turned off, whatever else happens before it,
in between and after. There is one exception: where drafts are asked for as well and there is
something to bill, it stores a draft. -/
theorem turned_off_exact {b : Account} (reads : (s.steps past).works.mover? n = some r)
    (queued : r.phase = .queued) (account : (s.steps past).store.account? r.order.account = some b)
    (off : b.tags.autoInvoicingOff = true) (rest : List Action) :
    ∃ r' k drafts,
      s.Hushed (past ++ .stepRun n :: rest) n r.order b.tags "AUTO_INVOICING_OFF" r' k drafts := by
  have hstate : blockingState b.tags = "AUTO_INVOICING_OFF" := if_pos off
  have hsuppressed : (Terms.ofAccount b).tags.invoicingSuppressed = true := by
    simp [Terms.ofAccount, ControlTagSet.invoicingSuppressed, off]
  obtain ⟨hr, _, _⟩ := Works.mover?_eq_some_iff.mp reads
  obtain ⟨hann, hputs⟩ : s.announcements n past = [] ∧ s.Puts n past 0 [] :=
    nothing_before fun r' hr' => by
      rw [hr] at hr'
      cases hr'
      exact queued
  have hstart : s.Hushes past n r.order (.ofAccount b) r 0 [] :=
    ⟨hr, rfl, hputs, by rw [hann, queued]; exact .queued⟩
  obtain ⟨r₁, k₁, is₁, h₁, hk₁⟩ := hstart.concat (a := .stepRun n) hsuppressed
    fun _ _ => ⟨b, account, rfl⟩
  have hpos : 0 < k₁ := by
    rcases hk₁ with rfl | ⟨_, hstill⟩
    · exact Nat.one_pos
    · rw [hstill rfl] at reads
      cases reads
  obtain ⟨r', k, drafts, h⟩ := h₁.follow hsuppressed hpos rest
  rw [List.append_assoc] at h
  refine ⟨r', k, drafts, ?_⟩
  exact {
    run := h.run
    order := h.order
    puts := h.puts
    steps := ⟨h.stands.steps.1, h.stands.steps.2.2⟩
    announced := hstate ▸ h.stands.announced
    unwanted := h.stands.unwanted
    wanted := h.stands.wanted }

/-! ### An account with tags -/

/-- A plan is ordered for an account with these tags. -/
def tagged (tags : ControlTagSet) : System :=
  (((System.opened .default (fun _ => 0) .epoch).step
    (.createAccount ⟨.numbered 7, none, .none⟩ ⟨"Acme", 0, tags, true⟩)).perform
      ⟨.numbered 8, some (.numbered 0), .none⟩ (.create (.numbered 0) "pro-monthly")).2

/-- The run of the order takes all its steps. -/
def fourSteps : List Action := [.stepRun 0, .pass 20, .stepRun 0, .stepRun 0, .stepRun 0]

theorem tagged_turned_off : ∃ r o k, (tagged ⟨false, true, false⟩).Hushed fourSteps 0 o
    ⟨false, true, false⟩ "AUTO_INVOICING_OFF" r k [] ∧ r.phase = .ended := by
  obtain ⟨r, k, drafts, h⟩ := turned_off_exact
    (show ((tagged ⟨false, true, false⟩).steps []).works.mover? 0 = some _ from rfl) rfl rfl rfl
    [.pass 20, .stepRun 0, .stepRun 0, .stepRun 0]
  have hdrafts : drafts = [] := h.unwanted fun hw => nomatch hw.1
  subst hdrafts
  refine ⟨r, _, k, h, ?_⟩
  have hrun := h.run
  cases hrun
  rfl

/-- Invoices are turned off and drafts are asked for: an invoice is stored. -/
theorem tagged_draft_stored :
    (tagged ⟨false, true, true⟩).store.invoices = [] ∧
      ∃ i, ((tagged ⟨false, true, true⟩).steps fourSteps).store.invoices = [i] ∧
        i.status = .draft ∧ i.amount.value ≠ 0 := by
  refine ⟨rfl, _, rfl, rfl, ?_⟩
  decide

end Service.System

end Billing
