import Billing.Completion.Policy
import Billing.Pipeline.Run

/-!
# When a run has settled

A run decides by the tags that it has read itself, and whoever waits for it by tags that were noted
before. What a run has announced in each of its phases is compared here with what the noted tags
call settled, for any two sets of tags.
-/

namespace Billing.Pipeline

open Completion (settles)

variable {noted read : ControlTagSet} {amount : Amount} {o : Order} {b : Books} {now : Instant}
  {p : Phase}

/-! ## Two sets of tags -/

/-- Whether a run over an amount that has read some tags announces anything that settles under the
noted tags. -/
def settlesUnder (noted read : ControlTagSet) (amount : Amount) : Bool :=
  if read.invoicingSuppressed then noted.invoicingSuppressed
  else amount.value ≤ 0 || noted.autoPayOff || !read.autoPayOff

theorem settlesUnder_self (tags : ControlTagSet) (amount : Amount) :
    settlesUnder tags tags amount = true := by
  unfold settlesUnder
  split
  · assumption
  · cases tags.autoPayOff <;> simp

/-! ## What a phase tells -/

namespace Phase

/-- What is certain of a run in some phase that has read these tags. -/
def Follows (o : Order) (read : ControlTagSet) : Phase → Prop
  | .queued => True
  | .transitioning t => t.tags = read
  | .drafting t => t.tags = read ∧ read.invoicingSuppressed = true
  | .blocking t => t.tags = read ∧ read.invoicingSuppressed = true
  | .invoicing t => t.tags = read ∧ read.invoicingSuppressed = false
  | .announcing t i =>
    t.tags = read ∧ read.invoicingSuppressed = false ∧ o.amount.value ≠ 0 ∧ i.balance = o.amount
  | .paying t i =>
    t.tags = read ∧ read.invoicingSuppressed = false ∧ 0 < o.amount.value ∧
      read.autoPayOff = false ∧ i.balance = o.amount
  | .failing _ | .settling _ _ | .confirming _ _ =>
    read.invoicingSuppressed = false ∧ 0 < o.amount.value ∧ read.autoPayOff = false
  | .ended => True

/-- Whether a run in some phase has announced anything that settles under the noted tags. -/
def hasSettled (noted read : ControlTagSet) (amount : Amount) : Phase → Bool
  | .paying _ _ | .failing _ | .settling _ _ => noted.autoPayOff
  | .confirming _ _ => true
  | .ended => settlesUnder noted read amount
  | _ => false

/-- How many pauses lie behind a run in some phase. -/
def pausesMade : Phase → Nat
  | .queued => 0
  | .transitioning _ | .drafting _ | .blocking _ => 1
  | .invoicing _ | .announcing _ _ => 2
  | _ => 3

/-- A run in this phase has nothing left to write. -/
def isFiled : Phase → Bool
  | .blocking _ | .failing _ | .settling _ _ | .confirming _ _ | .ended => true
  | _ => false

/-- The tags that a run has read, as long as it still needs them. -/
def readTags? : Phase → Option ControlTagSet
  | .transitioning t | .drafting t | .blocking t | .invoicing t => some t.tags
  | .announcing t _ | .paying t _ => some t.tags
  | _ => none

/-- The invoice that a run has written and may still pay. -/
def invoice? : Phase → Option Invoice
  | .announcing _ i | .paying _ i => some i
  | _ => none

/-- What the next step of a run has to find in the store. -/
def Provided (o : Order) (s : Store) : Phase → Prop
  | .queued => ∃ a, s.account? o.account = some a
  | .paying _ i => s.invoice? i.id = some i
  | _ => True

theorem pausesMade_le (p : Phase) : p.pausesMade ≤ 3 := by
  cases p <;> simp [pausesMade]

/-- Whatever has settled in some phase settles in the end. -/
theorem settlesUnder_of_hasSettled (h : p.Follows o read)
    (hs : p.hasSettled noted read o.amount = true) : settlesUnder noted read o.amount = true := by
  cases p with
  | paying t i =>
      have hs : noted.autoPayOff = true := hs
      simp [settlesUnder, h.2.1, hs]
  | failing i =>
      have hs : noted.autoPayOff = true := hs
      simp [settlesUnder, h.1, hs]
  | settling i q =>
      have hs : noted.autoPayOff = true := hs
      simp [settlesUnder, h.1, hs]
  | confirming i q => simp [settlesUnder, h.1, h.2.2]
  | ended => exact hs
  | _ => cases hs

/-- Where a run has read the noted tags, nothing settles before all is written. -/
theorem isFiled_of_hasSettled (h : p.Follows o read)
    (hs : p.hasSettled read read o.amount = true) : p.isFiled = true := by
  cases p with
  | paying t i =>
      have hs : read.autoPayOff = true := hs
      rw [h.2.2.2.1] at hs
      cases hs
  | failing i => rfl
  | settling i q => rfl
  | confirming i q => rfl
  | ended => rfl
  | _ => cases hs

end Phase

/-! ## What a step does -/

theorem recordPayment_ok {s : Store} {i : Invoice} {id : PaymentId} {status : PaymentStatus}
    {message : Option String} (h : s.invoice? i.id = some i) :
    ∃ s', s.recordPayment (o.payment id i status message now) = .ok s' := by
  unfold Store.recordPayment
  simp only [Order.payment, h]
  cases status with
  | failed => exact ⟨_, rfl⟩
  | success => simp

theorem Books.pay_phase {q : Payment} {next : Phase} (h : ∃ s', b.store.recordPayment q = .ok s') :
    (b.pay q next).phase = next := by
  obtain ⟨s', hs⟩ := h
  simp [Books.pay, hs, Progress.silent]

@[simp] theorem Books.pay_event {q : Payment} {next : Phase} : (b.pay q next).event = none := by
  unfold Books.pay
  split <;> rfl

namespace Phase

variable (now)

theorem step_follows (h : p.Follows o read) (hp : p.Provided o b.store)
    (ht : p = .queued → ∀ a, b.store.account? o.account = some a → a.tags = read) :
    (p.step o b now).phase.Follows o read := by
  cases p with
  | queued =>
      obtain ⟨a, ha⟩ := hp
      simp only [step, ha]
      exact ht rfl a ha
  | transitioning t =>
      obtain rfl : t.tags = read := h
      simp only [step]
      split
      · rename_i hs
        exact ⟨rfl, hs⟩
      · rename_i hs
        exact ⟨rfl, by simpa using hs⟩
  | drafting t =>
      simp only [step]
      split
      · exact h
      · exact h
  | invoicing t =>
      simp only [step]
      split
      · trivial
      · rename_i ha
        exact ⟨h.1, h.2, ha, rfl⟩
  | announcing t i =>
      obtain ⟨rfl, hs, ha, hi⟩ := h
      simp only [step]
      split
      · trivial
      · rename_i hn
        rw [not_or, hi] at hn
        exact ⟨rfl, hs, by omega, by simpa using hn.2, hi⟩
  | paying t i =>
      obtain ⟨rfl, hs, ha, hoff, hi⟩ := h
      simp only [step]
      split
      · rw [Books.pay_phase (recordPayment_ok hp)]
        exact ⟨hs, ha, hoff⟩
      · rw [Books.pay_phase (recordPayment_ok hp)]
        exact ⟨hs, ha, hoff⟩
  | settling i q => exact h
  | _ => trivial

theorem step_ne_queued : (p.step o b now).phase ≠ .queued := by
  cases p with
  | queued =>
      simp only [step]
      split <;> exact fun h => nomatch h
  | transitioning t =>
      simp only [step]
      split <;> exact fun h => nomatch h
  | drafting t =>
      simp only [step]
      split <;> exact fun h => nomatch h
  | invoicing t =>
      simp only [step]
      split <;> exact fun h => nomatch h
  | announcing t i =>
      simp only [step]
      split <;> exact fun h => nomatch h
  | paying t i =>
      simp only [step, Books.pay]
      split <;> split <;> exact fun h => nomatch h
  | _ => exact fun h => nomatch h

/-- A step makes a run settled exactly if what it announces settles. -/
theorem step_hasSettled (h : p.Follows o read) (hp : p.Provided o b.store) :
    (p.step o b now).phase.hasSettled noted read o.amount =
      (p.hasSettled noted read o.amount || (p.step o b now).event.any (settles noted)) := by
  cases p with
  | queued =>
      obtain ⟨a, ha⟩ := hp
      simp only [step, ha]
      rfl
  | transitioning t =>
      simp only [step]
      split <;> rfl
  | drafting t =>
      simp only [step]
      split <;> rfl
  | blocking t =>
      show settlesUnder noted read o.amount = noted.invoicingSuppressed
      simp [settlesUnder, h.2]
  | invoicing t =>
      simp only [step]
      split
      · rename_i ha
        show settlesUnder noted read o.amount = true
        simp [settlesUnder, h.2, ha]
      · rfl
  | announcing t i =>
      obtain ⟨rfl, hs, ha, hi⟩ := h
      simp only [step]
      split
      · -- The run ends here: there is nothing to pay, or payments are turned off.
        rename_i hn
        rw [hi] at hn
        show settlesUnder noted t.tags o.amount = (decide (i.balance.value ≤ 0) || noted.autoPayOff)
        rw [hi]
        rcases hn with hn | hn <;> simp [settlesUnder, hs, hn]
      · rename_i hn
        rw [not_or, hi] at hn
        show noted.autoPayOff = (decide (i.balance.value ≤ 0) || noted.autoPayOff)
        simp [hi, hn.1]
  | paying t i =>
      simp only [step]
      split
      · rw [Books.pay_phase (recordPayment_ok hp), Books.pay_event]
        exact (Bool.or_false _).symm
      · rw [Books.pay_phase (recordPayment_ok hp), Books.pay_event]
        exact (Bool.or_false _).symm
  | failing i =>
      show settlesUnder noted read o.amount = (noted.autoPayOff || true)
      simp [settlesUnder, h.1, h.2.2]
  | settling i q =>
      show true = (noted.autoPayOff || true)
      simp
  | confirming i q =>
      show settlesUnder noted read o.amount = true
      simp [settlesUnder, h.1, h.2.2]
  | ended => exact (Bool.or_false _).symm

/-- A step either is the last, or it is followed by the pause that it counts. -/
theorem step_pausesMade :
    (p.step o b now).phase = .ended ∨
      (p.step o b now).phase.pausesMade =
        p.pausesMade + if (p.step o b now).pauses then 1 else 0 := by
  cases p with
  | queued =>
      cases ha : b.store.account? o.account with
      | none => exact Or.inl (by simp only [step, ha]; rfl)
      | some a => exact Or.inr (by simp only [step, ha]; rfl)
  | transitioning t =>
      simp only [step]
      split <;> exact Or.inr rfl
  | drafting t =>
      simp only [step]
      split <;> exact Or.inr rfl
  | invoicing t =>
      simp only [step]
      split
      · exact Or.inl rfl
      · exact Or.inr rfl
  | announcing t i =>
      simp only [step]
      split
      · exact Or.inl rfl
      · exact Or.inr rfl
  | paying t i =>
      simp only [step]
      split
      all_goals
        unfold Books.pay
        split
        · exact Or.inr rfl
        · exact Or.inl rfl
  | settling i q => exact Or.inr rfl
  | _ => exact Or.inl rfl

theorem step_of_isFiled (h : p.isFiled = true) :
    (p.step o b now).books = b ∧ (p.step o b now).phase.isFiled = true := by
  cases p with
  | blocking t => exact ⟨rfl, rfl⟩
  | failing i => exact ⟨rfl, rfl⟩
  | settling i q => exact ⟨rfl, rfl⟩
  | confirming i q => exact ⟨rfl, rfl⟩
  | ended => exact ⟨rfl, rfl⟩
  | _ => cases h

end Phase

end Billing.Pipeline
