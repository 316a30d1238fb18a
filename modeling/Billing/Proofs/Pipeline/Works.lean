import Billing.Pipeline.Works
import Billing.Proofs.Pipeline.Books

/-!
# Runs side by side

Any number of runs take their steps over the same books. Each of them finds the invoice that it has
in hand as it wrote it, for no two runs have the same invoice in hand.
-/

namespace Billing.Pipeline

variable {w : Works} {m n : Nat} {r : Run} {i : Invoice}

/-! ## One step -/

/-- A run after a step. -/
def Run.next (r : Run) (w : Works) : Run :=
  let p := r.phase.step r.order w.books w.clock
  { r with phase := p.phase, due := if p.pauses then w.time + w.stepDelay else w.time }

/-- What a run announces in a step. -/
def Run.news (r : Run) (w : Works) : List Publication :=
  (r.phase.step r.order w.books w.clock).event.toList.map fun e =>
    ⟨w.time, r.order.token, r.order.account, e⟩

namespace Works

/-- The run that takes a step now, if this one does. -/
def mover? (w : Works) (n : Nat) : Option Run :=
  w.runs[n]?.filter fun r => r.phase ≠ .ended ∧ r.due ≤ w.time

/-- What a run announces if it is to take a step now. -/
def announced? (w : Works) (n : Nat) : Option DomainEvent :=
  (w.mover? n).bind fun r => (r.phase.step r.order w.books w.clock).event

theorem mover?_eq_some_iff :
    w.mover? n = some r ↔ w.runs[n]? = some r ∧ r.phase ≠ .ended ∧ r.due ≤ w.time := by
  simp [mover?, Option.filter_eq_some_iff]

theorem stepRun_of_mover? (h : w.mover? n = some r) :
    w.stepRun n =
      { w with
        books := (r.phase.step r.order w.books w.clock).books
        runs := w.runs.set n (r.next w)
        published := w.published ++ r.news w } := by
  obtain ⟨hr, he, hd⟩ := mover?_eq_some_iff.mp h
  unfold stepRun
  simp only [hr]
  rw [if_neg]
  · rfl
  · rintro (h' | h')
    · exact he h'
    · omega

theorem stepRun_of_mover?_none (h : w.mover? n = none) : w.stepRun n = w := by
  unfold stepRun
  cases hr : w.runs[n]? with
  | none => rfl
  | some r =>
      simp only
      rw [if_pos]
      refine Decidable.byContradiction fun hn => ?_
      rw [not_or, Nat.not_lt] at hn
      have := mover?_eq_some_iff.mpr ⟨hr, hn.1, hn.2⟩
      rw [h] at this
      cases this

theorem time_stepRun (w : Works) (n : Nat) : (w.stepRun n).time = w.time := by
  cases hm : w.mover? n with
  | none => rw [stepRun_of_mover?_none hm]
  | some r => rw [stepRun_of_mover? hm]

theorem stepRun_beside (w : Works) (n : Nat) : w.store.Beside (w.stepRun n).store := by
  cases hm : w.mover? n with
  | none =>
      rw [stepRun_of_mover?_none hm]
      exact .refl _
  | some r =>
      rw [stepRun_of_mover? hm]
      exact r.phase.step_beside r.order w.books w.clock

/-! ## Invoices in hand -/

/-- Records are numbered, and every run has its own invoice in hand, as it stands in the books. -/
structure Sound (w : Works) : Prop where
  numbered : w.books.Numbered
  held : ∀ {n : Nat} {r : Run} {i : Invoice}, w.runs[n]? = some r → r.phase.invoice? = some i →
    w.books.store.invoice? i.id = some i
  apart : ∀ {m n : Nat} {r s : Run} {i j : Invoice}, w.runs[m]? = some r → w.runs[n]? = some s →
    r.phase.invoice? = some i → s.phase.invoice? = some j → i.id = j.id → m = n

/-- A run that has an invoice in hand after a step had it before, or has just written it. -/
theorem invoice?_step {p : Phase} {o : Order} {b : Books} {now : Instant}
    (h : (p.step o b now).phase.invoice? = some i) :
    p.invoice? = some i ∧ (p.step o b now).books = b ∨
      i.id = .numbered b.fresh ∧ (p.step o b now).books.store.invoice? i.id = some i := by
  cases p with
  | queued =>
      simp only [Phase.step] at h
      split at h <;> cases h
  | transitioning t =>
      simp only [Phase.step] at h
      split at h <;> cases h
  | drafting t =>
      simp only [Phase.step] at h
      split at h <;> cases h
  | invoicing t =>
      simp only [Phase.step] at h ⊢
      split at h
      · cases h
      · rename_i ha
        cases h
        rw [if_neg ha]
        exact Or.inr ⟨rfl, by rw [Progress.silent, Store.invoice?_insertInvoice, if_pos rfl]⟩
  | announcing t j =>
      simp only [Phase.step] at h ⊢
      split at h
      · cases h
      · rename_i hn
        cases h
        rw [if_neg hn]
        exact Or.inl ⟨rfl, rfl⟩
  | paying t j =>
      simp only [Phase.step] at h
      unfold Books.pay at h
      split at h <;> split at h <;> cases h
  | _ => cases h

namespace Sound

theorem opened (now : Instant) (stepDelay : Nat) : (Works.opened now stepDelay).Sound where
  numbered := ⟨(fun h => nomatch h), (fun h => nomatch h), (fun h => nomatch h),
    (fun h => nomatch h)⟩
  held h := nomatch h
  apart h := nomatch h

theorem of_eq {v : Works} (h : w.Sound) (books : v.books = w.books) (runs : v.runs = w.runs) :
    v.Sound where
  numbered := books ▸ h.numbered
  held hr hi := by
    rw [books]
    rw [runs] at hr
    exact h.held hr hi
  apart hr hs := by
    rw [runs] at hr hs
    exact h.apart hr hs

theorem entry {v : Works} {b : Books} {retagged : Option AccountId} (h : w.Sound)
    (hf : w.books.fresh < Id.supply) (he : w.books.Entry none retagged b) (books : v.books = b)
    (runs : v.runs = w.runs) : v.Sound where
  numbered := books ▸ he.numbered h.numbered
  held hr hi := by
    rw [books]
    rw [runs] at hr
    exact he.invoice?_of_ne h.numbered hf (h.held hr hi) fun _ hj => nomatch hj
  apart hr hs := by
    rw [runs] at hr hs
    exact h.apart hr hs

theorem start (h : w.Sound) (o : Order) : (w.start o).2.Sound where
  numbered := h.numbered
  held hr hi := by
    rcases getElem?_concat_eq_some_iff.mp hr with hr | ⟨_, rfl⟩
    · exact h.held hr hi
    · cases hi
  apart hr hs hi hj := by
    rcases getElem?_concat_eq_some_iff.mp hr with hr | ⟨_, rfl⟩
    · rcases getElem?_concat_eq_some_iff.mp hs with hs | ⟨_, rfl⟩
      · exact h.apart hr hs hi hj
      · cases hj
    · cases hi

theorem stepRun (h : w.Sound) (hf : w.books.fresh < Id.supply) (n : Nat) :
    (w.stepRun n).Sound := by
  cases hm : w.mover? n with
  | none =>
      rw [stepRun_of_mover?_none hm]
      exact h
  | some r =>
      rw [stepRun_of_mover? hm]
      obtain ⟨hr, _, _⟩ := mover?_eq_some_iff.mp hm
      have he := r.phase.step_entry r.order w.books w.clock none
      -- What is in hand of another run is still found, and is no new invoice.
      have hother : ∀ {l s j}, l ≠ n → w.runs[l]? = some s → s.phase.invoice? = some j →
          (r.phase.step r.order w.books w.clock).books.store.invoice? j.id = some j ∧
            j.id ≠ .numbered w.books.fresh := by
        intro l s j hl hs hj
        have hheld := h.held hs hj
        refine ⟨he.invoice?_of_ne h.numbered hf hheld fun k hk hid => ?_, fun hid => ?_⟩
        · exact hl (h.apart hs hr hj hk hid.symm)
        · exact (h.numbered.invoices hheld).ne hf hid.symm
      exact {
        numbered := he.numbered h.numbered
        held := fun {l s j} hs hj => by
          rcases (getElem?_set_eq_some_iff hr).mp hs with ⟨_, rfl⟩ | ⟨hl, hs⟩
          · rcases invoice?_step hj with ⟨hj, hb⟩ | ⟨_, hj⟩
            · simp only [hb]
              exact h.held hr hj
            · exact hj
          · exact (hother hl hs hj).1
        apart := fun {k l s t i j} hs ht hi hj hij => by
          rcases (getElem?_set_eq_some_iff hr).mp hs with ⟨hk, rfl⟩ | ⟨hk, hs⟩ <;>
            rcases (getElem?_set_eq_some_iff hr).mp ht with ⟨hl, rfl⟩ | ⟨hl, ht⟩
          · rw [hk, hl]
          · rcases invoice?_step hi with ⟨hi, _⟩ | ⟨hi, _⟩
            · rw [hk]
              exact h.apart hr ht hi hj hij
            · exact absurd (hij.symm.trans hi) (hother hl ht hj).2
          · rcases invoice?_step hj with ⟨hj, _⟩ | ⟨hj, _⟩
            · rw [hl]
              exact h.apart hs hr hi hj hij
            · exact absurd (hij.trans hj) (hother hk hs hi).2
          · exact h.apart hs ht hi hj hij }

end Sound

/-! ## Invoices of one run -/

/-- Nobody but this run has, or will have, the invoice with this identifier in hand. -/
structure Reserved (w : Works) (n : Nat) (id : InvoiceId) : Prop where
  handedOut : id.HandedOut w.books.fresh
  own : ∀ {m : Nat} {r : Run} {i : Invoice}, w.runs[m]? = some r → r.phase.invoice? = some i →
    i.id = id → m = n

namespace Reserved

variable {id : InvoiceId}

theorem of_eq {v : Works} (h : w.Reserved n id) (fresh : w.books.fresh ≤ v.books.fresh)
    (runs : v.runs = w.runs) : v.Reserved n id where
  handedOut := h.handedOut.mono fresh
  own hr := by
    rw [runs] at hr
    exact h.own hr

theorem start (h : w.Reserved n id) (o : Order) : (w.start o).2.Reserved n id where
  handedOut := h.handedOut
  own hr hi := by
    rcases getElem?_concat_eq_some_iff.mp hr with hr | ⟨_, rfl⟩
    · exact h.own hr hi
    · cases hi

theorem stepRun (h : w.Reserved n id) (hf : w.books.fresh < Id.supply) (m : Nat) :
    (w.stepRun m).Reserved n id := by
  cases hm : w.mover? m with
  | none =>
      rw [stepRun_of_mover?_none hm]
      exact h
  | some r =>
      rw [stepRun_of_mover? hm]
      obtain ⟨hr, _, _⟩ := mover?_eq_some_iff.mp hm
      refine ⟨h.handedOut.mono (r.phase.step_entry r.order w.books w.clock none).fresh_le, ?_⟩
      intro k s i hs hi hid
      rcases (getElem?_set_eq_some_iff hr).mp hs with ⟨rfl, rfl⟩ | ⟨_, hs⟩
      · rcases invoice?_step hi with ⟨hi, _⟩ | ⟨hnew, _⟩
        · exact h.own hr hi hid
        · exact absurd (hnew.symm.trans hid) (h.handedOut.ne hf)
      · exact h.own hs hi hid

end Reserved

/-- A run that changes an invoice has it for itself. -/
theorem Sound.reserved {id : InvoiceId} (h : w.Sound) (hf : w.books.fresh < Id.supply)
    (hi : w.books.store.invoice? id ≠ some i)
    (hi' : (w.stepRun n).books.store.invoice? id = some i) :
    (w.stepRun n).Reserved n id := by
  refine ⟨(h.stepRun hf n).numbered.invoices hi', ?_⟩
  cases hm : w.mover? n with
  | none =>
      rw [stepRun_of_mover?_none hm] at hi'
      exact absurd hi' hi
  | some r =>
      rw [stepRun_of_mover? hm] at hi' ⊢
      obtain ⟨hr, _, _⟩ := mover?_eq_some_iff.mp hm
      have he := r.phase.step_entry r.order w.books w.clock none
      intro k s j hs hj hid
      rcases (getElem?_set_eq_some_iff hr).mp hs with ⟨hk, _⟩ | ⟨hk, hs⟩
      · exact hk
      · -- An invoice that another run has in hand is none that this run could have changed.
        have hfound := hid ▸ h.held hs hj
        have hsame := he.invoice?_of_ne h.numbered hf hfound fun l hl hlid =>
          hk (h.apart hs hr hj hl (hid.trans hlid.symm))
        exact absurd (hfound.trans (hsame.symm.trans hi')) hi

end Works

end Billing.Pipeline
