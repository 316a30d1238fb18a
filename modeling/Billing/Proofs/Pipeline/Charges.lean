import Billing.Proofs.Pipeline.Books

/-!
# What an order comes to

A run that has read an account files at most one invoice and at most one payment for its order.
Which of them, and how they stand in the end, is decided by the order and by the account as it was
read; this is carried here through the phases of a run, one step at a time.
-/

namespace Billing.Pipeline

variable {o : Order} {a : Account} {b b' : Books} {i j : Invoice} {q : Payment} {now : Instant}
  {i? j? : Option Invoice} {q? r? : Option Payment} {p : Phase} {last : Nat}

/-! ## Charges -/

/-- An invoice is committed for an order under these tags. -/
structure Order.Billed (o : Order) (tags : ControlTagSet) : Prop where
  on : tags.autoInvoicingOff = false
  final : tags.autoInvoicingDraft = false
  amount : o.amount.value ≠ 0

/-- The invoice of an order is to be paid under these tags. -/
structure Order.Payable (o : Order) (tags : ControlTagSet) : Prop extends o.Billed tags where
  positive : 0 < o.amount.value
  pays : tags.autoPayOff = false

/-- What is filed for an order in all, given the account as it was read. -/
structure Order.Charge (o : Order) (a : Account) (i? : Option Invoice) (q? : Option Payment) :
    Prop where
  committed : (∃ i, i? = some i ∧ i.status = .committed) ↔ o.Billed a.tags
  invoice : ∀ i, i? = some i →
    i.account = o.account ∧ i.subscription = o.subscription ∧ i.amount = o.amount
  balance : ∀ i, i? = some i →
    i.balance = if q?.isSome ∧ a.paymentMethod = true then .zero else o.amount
  paid : (∃ q, q? = some q) ↔ o.Payable a.tags
  payment : ∀ q, q? = some q → q.account = o.account ∧ q.amount = o.amount ∧
    q.status = (if a.paymentMethod then .success else .failed) ∧
      ∃ i, i? = some i ∧ q.invoice = i.id

theorem billed_iff {tags : ControlTagSet} : o.Billed tags ↔
    tags.invoicingSuppressed = false ∧ o.amount.value ≠ 0 := by
  unfold ControlTagSet.invoicingSuppressed
  rw [Bool.or_eq_false_iff, and_assoc]
  exact ⟨fun h => ⟨h.on, h.final, h.amount⟩, fun ⟨hon, hfinal, ha⟩ => ⟨hon, hfinal, ha⟩⟩

/-- An invoice over the whole amount of an order, of which nothing has been paid. -/
structure Order.Issued (o : Order) (status : InvoiceStatus) (i : Invoice) : Prop where
  account : i.account = o.account
  subscription : i.subscription = o.subscription
  amount : i.amount = o.amount
  balance : i.balance = o.amount
  status : i.status = status

theorem issued_invoice (o : Order) (id : InvoiceId) (status : InvoiceStatus) (now : Instant) :
    o.Issued status (o.invoice id status now) := ⟨rfl, rfl, rfl, rfl, rfl⟩

namespace Order.Charge

/-- Nothing is charged where nothing is billed. -/
theorem none (h : ¬ o.Billed a.tags) : o.Charge a .none .none where
  committed := ⟨(fun ⟨_, hi, _⟩ => nomatch hi), fun hb => absurd hb h⟩
  invoice _ hi := nomatch hi
  balance _ hi := nomatch hi
  paid := ⟨(fun ⟨_, hq⟩ => nomatch hq), fun hp => absurd hp.toBilled h⟩
  payment _ hq := nomatch hq

/-- An invoice is charged without a payment where nothing is to be paid. -/
theorem unpaid {status : InvoiceStatus} (hi : o.Issued status i)
    (hb : status = .committed ↔ o.Billed a.tags) (hp : ¬ o.Payable a.tags) :
    o.Charge a (some i) .none where
  committed := by
    simp only [Option.some.injEq, exists_eq_left', hi.status]
    exact hb
  invoice := by
    rintro _ ⟨⟩
    exact ⟨hi.account, hi.subscription, hi.amount⟩
  balance := by
    rintro _ ⟨⟩
    exact hi.balance
  paid := ⟨(fun ⟨_, hq⟩ => nomatch hq), fun h => absurd h hp⟩
  payment _ hq := nomatch hq

/-- An invoice is charged with its payment, and nothing is left of it if that has gone well. -/
theorem tried {status : PaymentStatus} {balance : Amount} (hi : o.Issued .committed i)
    (hp : o.Payable a.tags) (hstatus : status = if a.paymentMethod then .success else .failed)
    (hbalance : balance = if a.paymentMethod = true then .zero else o.amount)
    (id : PaymentId) (message : Option String) (now : Instant) :
    o.Charge a (some { i with balance }) (some (o.payment id i status message now)) where
  committed := ⟨fun _ => hp.toBilled, fun _ => ⟨_, rfl, hi.status⟩⟩
  invoice := by
    rintro _ ⟨⟩
    exact ⟨hi.account, hi.subscription, hi.amount⟩
  balance := by
    rintro _ ⟨⟩
    simpa using hbalance
  paid := ⟨fun _ => hp, fun _ => ⟨_, rfl⟩⟩
  payment := by
    rintro _ ⟨⟩
    exact ⟨rfl, hi.balance, hstatus, _, rfl, rfl⟩

end Order.Charge

/-! ## Filing -/

/-- Somebody who has filed these records files one more under the next identifier, if any, and
changes none but his own invoice. -/
inductive Books.Files (b : Books) (i? : Option Invoice) (q? : Option Payment) :
    Books → Option Invoice → Option Payment → Prop where
  | nothing : Files b i? q? b i? q?
  | invoice {i : Invoice} (first : i? = none) (id : i.id = .numbered b.fresh) :
      Files b i? q? ⟨b.store.insertInvoice i, b.fresh + 1⟩ (some i) q?
  | payment {q : Payment} (first : q? = none) (id : q.id = .numbered b.fresh) :
      Files b i? q? ⟨b.store.insertPayment q, b.fresh + 1⟩ i? (some q)
  | paid {i j : Invoice} {q : Payment} (held : i? = some i) (same : j.id = i.id) (first : q? = none)
      (id : q.id = .numbered b.fresh) :
      Files b i? q? ⟨(b.store.insertInvoice j).insertPayment q, b.fresh + 1⟩ (some j) (some q)

/-- The records are found as they are. -/
structure Books.Stores (b : Books) (i? : Option Invoice) (q? : Option Payment) : Prop where
  invoice : ∀ i, i? = some i → b.store.invoice? i.id = some i
  payment : ∀ q, q? = some q → b.store.payment? q.id = some q

/-- The identifiers that are handed out next, up to the last, are all different, and no invoice or
payment bears any of them. -/
structure Books.Unspent (b : Books) (last : Nat) : Prop where
  supply : last ≤ Id.supply
  invoices : ∀ k, b.fresh ≤ k → k < last → b.store.invoice? (.numbered k) = none
  payments : ∀ k, b.fresh ≤ k → k < last → b.store.payment? (.numbered k) = none

namespace Books.Files

/-- An invoice that somebody else has filed is kept. -/
theorem keeps_invoice (h : b.Files i? q? b' j? r?) (hu : b.Unspent last) (hle : b'.fresh ≤ last)
    {id : InvoiceId} (hi : b.store.invoice? id = some i) (hown : ∀ j, i? = some j → j.id ≠ id) :
    b'.store.invoice? id = some i := by
  cases h with
  | invoice _ hid =>
      rw [Store.invoice?_insertInvoice, if_neg]
      · exact hi
      · rintro rfl
        rw [hid, hu.invoices _ (Nat.le_refl _) hle] at hi
        cases hi
  | @paid i j q hheld hsame _ _ =>
      show (b.store.insertInvoice j).invoice? id = _
      rw [Store.invoice?_insertInvoice, if_neg]
      · exact hi
      · rw [hsame]
        exact hown i hheld
  | _ => exact hi

theorem keeps_payment (h : b.Files i? q? b' j? r?) (hu : b.Unspent last) (hle : b'.fresh ≤ last)
    {id : PaymentId} (hq : b.store.payment? id = some q) : b'.store.payment? id = some q := by
  -- What is put is new, and so it is not the payment that is looked for.
  have hput : ∀ {s : Store} {r : Payment}, (∀ id, s.payment? id = b.store.payment? id) →
      r.id = .numbered b.fresh → b.fresh + 1 ≤ last → (s.insertPayment r).payment? id = some q := by
    intro s r hsame hid hlt
    rw [Store.payment?_insertPayment, if_neg, hsame]
    · exact hq
    · rintro rfl
      rw [hid, hu.payments _ (Nat.le_refl _) hlt] at hq
      cases hq
  cases h with
  | payment _ hid => exact hput (fun _ => rfl) hid hle
  | paid _ _ _ hid => exact hput (fun _ => rfl) hid hle
  | _ => exact hq

theorem stores (h : b.Files i? q? b' j? r?) (hs : b.Stores i? q?) : b'.Stores j? r? := by
  cases h with
  | nothing => exact hs
  | invoice =>
      refine ⟨?_, hs.payment⟩
      rintro _ ⟨⟩
      rw [Store.invoice?_insertInvoice, if_pos rfl]
  | payment =>
      refine ⟨hs.invoice, ?_⟩
      rintro _ ⟨⟩
      rw [Store.payment?_insertPayment, if_pos rfl]
  | @paid i j q =>
      constructor
      · rintro _ ⟨⟩
        show (b.store.insertInvoice j).invoice? j.id = some j
        rw [Store.invoice?_insertInvoice, if_pos rfl]
      · rintro _ ⟨⟩
        rw [Store.payment?_insertPayment, if_pos rfl]

/-- The invoice that is filed is the one that is found for the first time. -/
theorem invoice_iff (h : b.Files i? q? b' j? r?) (hs : b.Stores i? q?) (hu : b.Unspent last)
    (hle : b'.fresh ≤ last) (id : InvoiceId) :
    ((∃ i, i? = some i ∧ i.id = id) ∨
        ¬ b.store.invoice? id ≠ none ∧ b'.store.invoice? id ≠ none) ↔
      ∃ i, j? = some i ∧ i.id = id := by
  cases h with
  | nothing => simp
  | payment => simp [Store.insertPayment, Store.invoice?]
  | @invoice i hfirst hid =>
      simp only [hfirst, Store.invoice?_insertInvoice, Option.some.injEq, exists_eq_left']
      constructor
      · rintro (⟨_, hn, _⟩ | ⟨hnone, hsome⟩)
        · cases hn
        · split at hsome
          · assumption
          · exact absurd hsome hnone
      · intro he
        refine Or.inr ⟨?_, ?_⟩
        · rw [← he, hid, hu.invoices _ (Nat.le_refl _) hle]
          exact fun h => h rfl
        · rw [if_pos he]
          rintro ⟨⟩
  | @paid i j q hheld hsame _ _ =>
      have hfound := hs.invoice i hheld
      simp only [hheld, Option.some.injEq, exists_eq_left', hsame]
      refine ⟨?_, Or.inl⟩
      rintro (he | ⟨hnone, hsome⟩)
      · exact he
      · have hsome : (b.store.insertInvoice j).invoice? id ≠ none := hsome
        rw [Store.invoice?_insertInvoice, hsame] at hsome
        split at hsome
        · assumption
        · exact absurd hsome hnone

theorem payment_iff (h : b.Files i? q? b' j? r?) (hu : b.Unspent last) (hle : b'.fresh ≤ last)
    (id : PaymentId) :
    ((∃ q, q? = some q ∧ q.id = id) ∨
        ¬ b.store.payment? id ≠ none ∧ b'.store.payment? id ≠ none) ↔
      ∃ q, r? = some q ∧ q.id = id := by
  -- A payment that is filed first is the one that is found for the first time.
  have hfiled : ∀ {s : Store} {q : Payment}, (∀ id, s.payment? id = b.store.payment? id) →
      q.id = .numbered b.fresh → b.fresh + 1 ≤ last → q? = none →
      (((∃ q, q? = some q ∧ q.id = id) ∨
        ¬ b.store.payment? id ≠ none ∧ (s.insertPayment q).payment? id ≠ none) ↔
          ∃ q', some q = some q' ∧ q'.id = id) := by
    intro s q hsame hid hlt hfirst
    simp only [hfirst, Store.payment?_insertPayment, hsame, Option.some.injEq, exists_eq_left']
    constructor
    · rintro (⟨_, hn, _⟩ | ⟨hnone, hsome⟩)
      · cases hn
      · split at hsome
        · assumption
        · exact absurd hsome hnone
    · intro he
      refine Or.inr ⟨?_, ?_⟩
      · rw [← he, hid, hu.payments _ (Nat.le_refl _) hlt]
        exact fun h => h rfl
      · rw [if_pos he]
        rintro ⟨⟩
  cases h with
  | nothing => simp
  | invoice => simp [Store.insertInvoice, Store.payment?]
  | payment hfirst hid => exact hfiled (fun _ => rfl) hid hle hfirst
  | paid _ _ hfirst hid => exact hfiled (fun _ => rfl) hid hle hfirst

end Books.Files

/-! ## The phases of a run -/

/-- What a run keeps of an account that it has read. -/
def Terms.ofAccount (a : Account) : Terms := ⟨a.tags, a.paymentMethod⟩

/-- Where a run stands that has read an account and filed these records. -/
def Phase.Bills (o : Order) (a : Account) (i? : Option Invoice) (q? : Option Payment) :
    Phase → Prop
  | .queued => False
  | .transitioning t => t = .ofAccount a ∧ i? = none ∧ q? = none
  | .drafting t =>
    t = .ofAccount a ∧ a.tags.invoicingSuppressed = true ∧ i? = none ∧ q? = none
  | .invoicing t =>
    t = .ofAccount a ∧ a.tags.invoicingSuppressed = false ∧ i? = none ∧ q? = none
  | .announcing t i =>
    t = .ofAccount a ∧ o.Billed a.tags ∧ o.Issued .committed i ∧ i? = some i ∧ q? = none
  | .paying t i =>
    t = .ofAccount a ∧ o.Payable a.tags ∧ o.Issued .committed i ∧ i? = some i ∧ q? = none
  | _ => o.Charge a i? q?

theorem Phase.step_unknown (h : b.store.account? o.account = none) :
    Phase.queued.step o b now = .silent b .ended false := by
  simp only [step, h]

theorem Phase.step_known (h : b.store.account? o.account = some a) :
    Phase.queued.step o b now = .silent b (.transitioning (.ofAccount a)) true := by
  simp only [step, h]
  rfl

theorem pay_success {id : PaymentId} {message : Option String} {next : Phase}
    (h : b.store.invoice? i.id = some i) :
    b.pay (o.payment id i .success message now) next =
      .silent ⟨(b.store.insertInvoice { i with balance := .zero }).insertPayment
        (o.payment id i .success message now), b.fresh + 1⟩ next false := by
  simp [Books.pay, Store.recordPayment, Order.payment, h]

theorem pay_failed {id : PaymentId} {message : Option String} {next : Phase}
    (h : b.store.invoice? i.id = some i) :
    b.pay (o.payment id i .failed message now) next =
      .silent ⟨b.store.insertPayment (o.payment id i .failed message now), b.fresh + 1⟩ next
        false := by
  simp [Books.pay, Store.recordPayment, Order.payment, h]

/-- A step of a run that has read an account files at most one record more, and if it is the last it
announces something. -/
theorem Phase.step_bills (now : Instant) (h : p.Bills o a i? q?) (hs : b.Stores i? q?)
    (hp : p ≠ .ended) : ∃ j? r?, (p.step o b now).phase.Bills o a j? r? ∧
      b.Files i? q? (p.step o b now).books j? r? ∧
        ((p.step o b now).phase = .ended → (p.step o b now).event ≠ none) := by
  cases p with
  | queued => cases h
  | transitioning t =>
      obtain ⟨rfl, hi, hq⟩ := h
      refine ⟨i?, q?, ?_⟩
      simp only [step]
      by_cases hsup : (Terms.ofAccount a).tags.invoicingSuppressed = true
      · rw [if_pos hsup]
        exact ⟨⟨rfl, hsup, hi, hq⟩, .nothing, by rintro ⟨⟩⟩
      · rw [if_neg hsup]
        exact ⟨⟨rfl, Bool.eq_false_iff.mpr hsup, hi, hq⟩, .nothing, by rintro ⟨⟩⟩
  | drafting t =>
      obtain ⟨rfl, hsup, hi, hq⟩ := h
      have hnot : ¬ o.Billed a.tags := by
        rw [billed_iff, hsup]
        rintro ⟨⟨⟩, _⟩
      subst hi hq
      simp only [step]
      split
      · refine ⟨_, _, .unpaid (issued_invoice ..) ⟨?_, fun hb => absurd hb hnot⟩ fun hpay => ?_,
          .invoice rfl rfl, by rintro ⟨⟩⟩
        · rintro ⟨⟩
        · exact hnot hpay.toBilled
      · exact ⟨_, _, .none hnot, .nothing, by rintro ⟨⟩⟩
  | invoicing t =>
      obtain ⟨rfl, hsup, hi, hq⟩ := h
      subst hi hq
      simp only [step]
      split
      · rename_i hzero
        have hnot : ¬ o.Billed a.tags := fun hb => hb.amount hzero
        exact ⟨_, _, .none hnot, .nothing, by rintro _ ⟨⟩⟩
      · rename_i hamount
        exact ⟨_, _, ⟨rfl, billed_iff.mpr ⟨hsup, hamount⟩, issued_invoice .., rfl, rfl⟩,
          .invoice rfl rfl, by rintro ⟨⟩⟩
  | announcing t i =>
      obtain ⟨rfl, hbilled, hissued, hi, hq⟩ := h
      subst hi hq
      simp only [step, hissued.balance, Terms.ofAccount]
      split
      · rename_i hstop
        refine ⟨_, _, .unpaid hissued ⟨fun _ => hbilled, fun _ => rfl⟩ fun hpay => ?_, .nothing,
          by rintro _ ⟨⟩⟩
        rcases hstop with hstop | hstop
        · have := hpay.positive
          omega
        · rw [hpay.pays] at hstop
          cases hstop
      · rename_i hgo
        rw [not_or] at hgo
        exact ⟨_, _, ⟨rfl, ⟨hbilled, by omega, by simpa using hgo.2⟩, hissued, rfl, rfl⟩, .nothing,
          by rintro ⟨⟩⟩
  | paying t i =>
      obtain ⟨rfl, hpay, hissued, hi, hq⟩ := h
      subst hi hq
      have hfound := hs.invoice i rfl
      cases hmethod : a.paymentMethod with
      | true =>
          simp only [step, Terms.ofAccount, hmethod, if_true, pay_success hfound]
          exact ⟨_, _, .tried hissued hpay (by rw [hmethod]; rfl) (by rw [hmethod]; rfl) ..,
            .paid rfl rfl rfl rfl, by rintro ⟨⟩⟩
      | false =>
          simp only [step, Terms.ofAccount, hmethod, Bool.false_eq_true, if_false,
            pay_failed hfound]
          have hbalance : i.balance = if a.paymentMethod = true then .zero else o.amount := by
            rw [hissued.balance, hmethod]
            rfl
          exact ⟨_, _, .tried hissued hpay (by rw [hmethod]; rfl) hbalance .., .payment rfl rfl,
            by rintro ⟨⟩⟩
  | ended => exact absurd rfl hp
  | _ => exact ⟨_, _, h, .nothing, by rintro _ ⟨⟩⟩

end Billing.Pipeline
