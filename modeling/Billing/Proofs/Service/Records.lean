import Billing.Proofs.Service.Sound

/-!
# What the records keep

As long as identifiers do not run out, payments stay, invoices stay up to their balance, accounts
stay up to their tags, and what a command is about stays the same account.
-/

namespace Billing.Service

open Pipeline (Works Run Books)
open Completion (Desk)

namespace System

variable {s : System} {a : Action} {w : Works} {cs : List Submitted} {d : Desk Subscription}
  {as : List Action}

/-! ## One action -/

/-- Whatever is done to the books is one entry, and only a run that takes a step has an invoice in
hand. -/
theorem Effect.booked (h : s.Effect a w cs d) : ∃ hand,
    s.works.books.Entry hand a.retagged? w.books ∧
      ∀ i, hand = some i → ∃ n r, s.Stepped a w n r ∧ r.phase.invoice? = some i := by
  have hnone : ∀ i : Invoice, none = some i →
      ∃ n r, s.Stepped a w n r ∧ r.phase.invoice? = some i :=
    fun _ hi => nomatch hi
  cases h with
  | worked _ _ hadv => exact ⟨none, hadv.entry, hnone⟩
  | @stepped n =>
      cases hm : s.works.mover? n with
      | none =>
          rw [Works.stepRun_of_mover?_none hm]
          exact ⟨none, .nothing, fun _ hi => nomatch hi⟩
      | some r =>
          refine ⟨r.phase.invoice?, ?_, fun i hi => ⟨n, r, stepped_of_mover? hm, hi⟩⟩
          rw [Works.stepRun_of_mover? hm]
          exact r.phase.step_entry r.order s.works.books s.works.clock _
  | entered he => exact ⟨none, he, hnone⟩
  | _ => exact ⟨none, .nothing, hnone⟩

theorem Effect.entry (h : s.Effect a w cs d) :
    ∃ hand, s.works.books.Entry hand a.retagged? w.books := by
  obtain ⟨hand, he, _⟩ := h.booked
  exact ⟨hand, he⟩

theorem fresh_le_step (s : System) (a : Action) :
    s.works.books.fresh ≤ (s.step a).works.books.fresh := by
  obtain ⟨_, h⟩ := (s.step_effect a).entry
  exact h.fresh_le

theorem fresh_le_steps (s : System) (as : List Action) :
    s.works.books.fresh ≤ (s.steps as).works.books.fresh := by
  induction as generalizing s with
  | nil => exact Nat.le_refl _
  | cons a as ih => exact Nat.le_trans (fresh_le_step s a) (ih _)

/-- Fewer identifiers have been handed out than there are. -/
def Supplied (s : System) : Prop := s.works.books.fresh < Id.supply

theorem Supplied.of_step (h : (s.step a).Supplied) : s.Supplied :=
  Nat.lt_of_le_of_lt (fresh_le_step s a) h

theorem Supplied.of_steps (h : (s.steps as).Supplied) : s.Supplied :=
  Nat.lt_of_le_of_lt (fresh_le_steps s as) h

section Kept

variable (h : s.Effect a w cs d) (hn : s.works.books.Numbered) (hf : s.Supplied)
include h hn hf

theorem Effect.keeps : s.store.Keeps w.store := by
  obtain ⟨_, he⟩ := h.entry
  exact he.keeps hn hf

/-- An account is kept, and its tags change only where an action replaces them. -/
theorem Effect.account? {id : AccountId} {b : Account} (hb : s.store.account? id = some b) :
    ∃ tags, w.store.account? id = some { b with tags } ∧
      (a.retagged? ≠ some id → tags = b.tags) := by
  obtain ⟨_, he⟩ := h.entry
  exact he.account? hn hf hb

theorem Effect.about {c : Command} {id : AccountId} (hc : c.account? s.store = some id) :
    c.account? w.store = some id := by
  obtain ⟨_, he⟩ := h.entry
  have hsub : ∀ {x : SubscriptionId}, (s.store.subscription? x).map (·.account) = some id →
      (w.store.subscription? x).map (·.account) = some id := by
    intro x hx
    obtain ⟨y, hy, hid⟩ := Option.map_eq_some_iff.mp hx
    obtain ⟨z, hz, hacc⟩ := he.subscription? hn hf hy
    exact Option.map_eq_some_iff.mpr ⟨z, hz, hacc.trans hid⟩
  cases c with
  | create account plan => exact hc
  | changePlan subscription plan date => exact hsub hc
  | cancel subscription date => exact hsub hc

end Kept

/-! ## Every state -/

/-- The records are in order, and whatever is billed to an account finds that account. -/
structure Stocked (s : System) : Prop where
  works : s.works.Sound
  read : ∀ {j : Nat} {m : Submitted} {r : Reading}, s.commands[j]? = some m →
    m.stage.reading? = some r → ∃ b, s.store.account? r.account.id = some b
  billed : ∀ {n : Nat} {r : Run}, s.works.runs[n]? = some r →
    ∃ b, s.store.account? r.order.account = some b

theorem Stocked.opened (settings : Config.Settings) (hash : CorrelationToken → UInt64)
    (now : Instant) : (System.opened settings hash now).Stocked where
  works := .opened now stepDelay
  read h := nomatch h
  billed h := nomatch h

theorem Effect.sound (h : s.Effect a w cs d) (hw : s.works.Sound) (hf : s.Supplied) : w.Sound := by
  cases h with
  | worked _ _ hadv => exact hadv.sound hw hf
  | stepped => exact hw.stepRun hf _
  | entered he => exact hw.entry hf he rfl rfl
  | delivered => exact hw.of_eq rfl rfl
  | passed => exact hw.of_eq rfl rfl
  | _ => exact hw

theorem Stocked.step (h : s.Stocked) (hf : s.Supplied) (a : Action) : (s.step a).Stocked := by
  have he := s.step_effect a
  have hkept : ∀ {id : AccountId}, (∃ b, s.store.account? id = some b) →
      ∃ b, (s.step a).store.account? id = some b := by
    rintro id ⟨b, hb⟩
    obtain ⟨tags, ht, _⟩ := he.account? h.works.numbered hf hb
    exact ⟨_, ht⟩
  refine ⟨he.sound h.works hf, fun {j m r} hm hr => ?_, fun {n r} hr => ?_⟩
  · rcases he.command_before hm with ⟨m', hm', _, _, hst | ⟨_, hadv⟩⟩ | ⟨_, hst⟩
    · rw [hst] at hr
      exact hkept (h.read hm' hr)
    · rcases hadv.reading hr with hr | ⟨_, _, hfound⟩
      · exact hkept (h.read hm' hr)
      · exact hkept ⟨_, hfound⟩
    · rw [hst] at hr
      cases hr
  · rcases he.run_before hr with ⟨r', hr', ho⟩ | ⟨_, j, m, rd, changed, hm, hst, rfl, _⟩
    · rw [← ho]
      exact hkept (h.billed hr')
    · exact hkept (h.read hm (by rw [hst]; rfl))

theorem Stocked.steps (h : s.Stocked) (hf : (s.steps as).Supplied) : (s.steps as).Stocked := by
  induction as generalizing s with
  | nil => exact h
  | cons a as ih => exact ih (h.step hf.of_steps a) hf

theorem keeps_steps (h : s.Stocked) (hf : (s.steps as).Supplied) :
    s.store.Keeps (s.steps as).store := by
  induction as generalizing s with
  | nil => exact .refl _
  | cons a as ih =>
      have hf' : s.Supplied := hf.of_steps
      exact ((s.step_effect a).keeps h.works.numbered hf').trans (ih (h.step hf' a) hf)

end System

end Billing.Service
