import Mathlib
import Billing.Proofs.Pipeline.Books
import Billing.Store.Vault

/-!
# The ledger

Invoices and payments, written under the lock one table after the other. A payment is recorded as a
whole or not at all, although its balance is written before it. From an empty vault on, the balance
of every invoice is its amount less the payments that were made of it, in whole numbers without
bound, and a posting that fails or panics leaves nothing behind.
-/

namespace Billing

/-! ## One posting -/

/-- The separate writes of a payment come to one step of the store, or to none. -/
theorem Write.run_payment (s : Store) (p : Payment) :
    (Write.payment p).run.run s =
      match s.recordPayment p with
      | .ok t => (.ok (), t)
      | .error e => (.error e, s) := by
  have hlookup : (Write.payment p).run.run s = (Write.settle p (s.invoice? p.invoice)).run.run s :=
    rfl
  rw [hlookup]
  unfold Store.recordPayment
  cases hi : s.invoice? p.invoice with
  | none => rfl
  | some i =>
      unfold Write.settle Write.lower
      cases hstatus : p.status with
      | failed => rfl
      | success =>
          cases hbalance : i.balance.sub? p.amount with
          | none =>
              simp only [hbalance]
              rfl
          | some balance =>
              simp only [hbalance]
              rfl

/-- What is posted bears an identifier that the tables do not know, and an invoice is open in
full. -/
def Posting.New (s : Store) : Posting → Prop
  | .invoice i => s.invoice? i.id = none ∧ i.balance = i.amount
  | .payment p => s.payment? p.id = none

instance (s : Store) : DecidablePred (Posting.New s)
  | .invoice i => inferInstanceAs (Decidable (s.invoice? i.id = none ∧ i.balance = i.amount))
  | .payment p => inferInstanceAs (Decidable (s.payment? p.id = none))

/-- What a posting comes to: the answer, and the tables afterwards. -/
inductive Posted (s : Store) : Posting → Except PaymentFault Unit → Store → Prop where
  | invoice {i : Invoice} : Posted s (.invoice i) (.ok ()) { s with invoices := s.invoices ++ [i] }
  | failed {p : Payment} {i : Invoice} (found : s.invoice? p.invoice = some i)
      (status : p.status = .failed) :
      Posted s (.payment p) (.ok ()) { s with payments := s.payments ++ [p] }
  | paid {p : Payment} {i : Invoice} {balance : Amount} (found : s.invoice? p.invoice = some i)
      (status : p.status = .success) (lower : balance.value = i.balance.value - p.amount.value) :
      Posted s (.payment p) (.ok ())
        { s with
          invoices := Store.Table.put (·.id) { i with balance } s.invoices
          payments := s.payments ++ [p] }
  | unknown {p : Payment} (missing : s.invoice? p.invoice = none) :
      Posted s (.payment p) (.error (.refused (.notFound ("invoice " ++ p.invoice.text)))) s
  | overflow {p : Payment} {i : Invoice} (found : s.invoice? p.invoice = some i)
      (status : p.status = .success)
      (outside : ∀ balance : Amount, balance.value ≠ i.balance.value - p.amount.value) :
      Posted s (.payment p) (.error .overflow) s

namespace Vault

variable {v : Vault} {e : Posting} {p : Payment}

theorem post_of_ok {t : Store} (h : v.tables.recordPayment p = .ok t) :
    v.post (.payment p) = (.ok (), ⟨t, v.poisoned⟩) := by
  unfold post write Posting.write
  simp only [Write.run_payment, h]

theorem post_of_error {fault : PaymentFault} (h : v.tables.recordPayment p = .error fault) :
    v.post (.payment p) = (.error fault, ⟨v.tables, v.poisoned || fault.panics⟩) := by
  unfold post write Posting.write
  simp only [Write.run_payment, h]

/-- What the store makes of a payment in one step is what comes of its writes. -/
theorem recordPayment_eq (v : Vault) (p : Payment) :
    v.tables.recordPayment p =
      match v.post (.payment p) with
      | (.ok _, w) => .ok w.tables
      | (.error fault, _) => .error fault := by
  cases h : v.tables.recordPayment p with
  | ok t => rw [post_of_ok h]
  | error fault => rw [post_of_error h]

theorem posted (new : e.New v.tables) : Posted v.tables e (v.post e).1 (v.post e).2.tables := by
  cases e with
  | invoice i =>
      have hput : v.tables.insertInvoice i =
          { v.tables with invoices := v.tables.invoices ++ [i] } := by
        unfold Store.insertInvoice
        rw [Store.Table.put_of_not_found new.1]
      have hpost : v.post (.invoice i) = (.ok (), ⟨v.tables.insertInvoice i, v.poisoned⟩) := rfl
      rw [hpost, hput]
      exact .invoice
  | payment p =>
      have hput (s : Store) (h : s.payments = v.tables.payments) :
          s.insertPayment p = { s with payments := v.tables.payments ++ [p] } := by
        unfold Store.insertPayment
        rw [h, Store.Table.put_of_not_found new]
      cases hi : v.tables.invoice? p.invoice with
      | none =>
          rw [post_of_error (by simp only [Store.recordPayment, hi]; rfl)]
          exact .unknown hi
      | some i =>
          cases hstatus : p.status with
          | failed =>
              rw [post_of_ok (by simp only [Store.recordPayment, hi, hstatus]; rfl), hput _ rfl]
              exact .failed hi hstatus
          | success =>
              cases hbalance : i.balance.sub? p.amount with
              | none =>
                  rw [post_of_error
                    (by simp only [Store.recordPayment, hi, hstatus, hbalance]; rfl)]
                  refine .overflow hi hstatus fun balance he => ?_
                  rw [Amount.sub?, ← he, Amount.ofInt?_value] at hbalance
                  cases hbalance
              | some balance =>
                  rw [post_of_ok (by simp only [Store.recordPayment, hi, hstatus, hbalance]; rfl),
                    hput (v.tables.insertInvoice { i with balance }) rfl]
                  exact .paid hi hstatus (Amount.value_of_ofInt? hbalance)

/-- A posting that fails leaves the tables. -/
theorem tables_of_error {fault : PaymentFault} (h : (v.post e).1 = .error fault) :
    (v.post e).2.tables = v.tables := by
  cases e with
  | invoice i => cases h
  | payment p =>
      cases hrecord : v.tables.recordPayment p with
      | ok t =>
          rw [post_of_ok hrecord] at h
          cases h
      | error fault' => rw [post_of_error hrecord]

/-- An attempt to pay that failed moves no balance. -/
theorem invoices_of_failed (h : p.status = .failed) :
    (v.post (.payment p)).2.tables.invoices = v.tables.invoices := by
  cases hi : v.tables.invoice? p.invoice with
  | none => rw [post_of_error (by simp only [Store.recordPayment, hi]; rfl)]
  | some i =>
      rw [post_of_ok (by simp only [Store.recordPayment, hi, h]; rfl)]
      rfl

/-! ## A poisoned lock -/

/-- Nobody who takes the lock asks whether it is poisoned. -/
theorem post_congr {w : Vault} (h : v.tables = w.tables) (e : Posting) :
    (v.post e).1 = (w.post e).1 ∧ (v.post e).2.tables = (w.post e).2.tables := by
  unfold post write
  rw [h]
  split <;> exact ⟨rfl, rfl⟩

theorem answers_congr {w : Vault} (es : List Posting) (h : v.tables = w.tables) :
    v.answers es = w.answers es ∧ (v.after es).tables = (w.after es).tables := by
  induction es generalizing v w with
  | nil => exact ⟨rfl, h⟩
  | cons e es ih =>
      obtain ⟨hanswer, htables⟩ := post_congr h e
      obtain ⟨hanswers, hafter⟩ := ih htables
      refine ⟨?_, hafter⟩
      unfold answers
      rw [hanswer, hanswers]

end Vault

/-! ## Balances -/

namespace Store

/-- What was paid of an invoice. -/
def paid (s : Store) (id : InvoiceId) : Int :=
  ((s.payments.filter fun p => p.invoice = id ∧ p.status = .success).map (·.amount.value)).sum

/-- The ledger agrees with itself. -/
structure Balanced (s : Store) : Prop where
  invoicesApart : Table.Apart (·.id) s.invoices
  paymentsApart : Table.Apart (·.id) s.payments
  /-- A balance is the amount less what was paid. -/
  balance : ∀ i ∈ s.invoices, i.balance.value = i.amount.value - s.paid i.id
  /-- A payment names a stored invoice. -/
  named : ∀ p ∈ s.payments, ∃ i ∈ s.invoices, i.id = p.invoice

theorem balanced_empty : Store.empty.Balanced where
  invoicesApart := .nil
  paymentsApart := .nil
  balance _ hi := by cases hi
  named _ hp := by cases hp

section Paid

variable {s t : Store} {p : Payment} {id : InvoiceId}

theorem paid_append (ht : t.payments = s.payments ++ [p]) :
    t.paid id =
      s.paid id + if p.invoice = id ∧ p.status = .success then p.amount.value else 0 := by
  unfold paid
  rw [ht, List.filter_append, List.map_append, List.sum_append]
  split
  · rename_i h
    simp [h]
  · rename_i h
    simp [h]

/-- What no payment names was not paid. -/
theorem paid_of_unnamed (h : ∀ p ∈ s.payments, p.invoice ≠ id) : s.paid id = 0 := by
  have hnone : (s.payments.filter fun p => p.invoice = id ∧ p.status = .success) = [] :=
    List.filter_eq_nil_iff.mpr fun p hp => by simp [h p hp]
  rw [paid, hnone]
  rfl

end Paid

namespace Balanced

variable {s t : Store} {i : Invoice} {p : Payment} {balance : Amount}

theorem apart_append (h : s.Balanced) (hnew : s.payment? p.id = none) :
    Table.Apart (·.id) (s.payments ++ [p]) := by
  rw [← Table.put_of_not_found hnew]
  exact h.paymentsApart.put p

/-- Nothing was paid yet of an invoice that is not known. -/
theorem paid_of_new (h : s.Balanced) (hnew : s.invoice? i.id = none) : s.paid i.id = 0 := by
  refine paid_of_unnamed fun p hp he => ?_
  obtain ⟨j, hj, hid⟩ := h.named p hp
  have hfound := h.invoicesApart.find? hj
  rw [hid, he] at hfound
  exact nomatch hnew.symm.trans hfound

/-- A new invoice is open in full. -/
theorem insert_invoice (h : s.Balanced) (hnew : s.invoice? i.id = none)
    (hopen : i.balance = i.amount) :
    ({ s with invoices := s.invoices ++ [i] } : Store).Balanced where
  invoicesApart := by
    rw [← Table.put_of_not_found hnew]
    exact h.invoicesApart.put i
  paymentsApart := h.paymentsApart
  balance := by
    intro j hj
    rcases List.mem_append.mp hj with hj | hj
    · exact h.balance j hj
    · cases List.mem_singleton.mp hj
      show i.balance.value = i.amount.value - s.paid i.id
      rw [h.paid_of_new hnew, hopen, Int.sub_zero]
  named p hp := by
    obtain ⟨j, hj, hid⟩ := h.named p hp
    exact ⟨j, List.mem_append_left _ hj, hid⟩

/-- A payment that was not made counts for nothing. -/
theorem insert_failed (h : s.Balanced) (hnew : s.payment? p.id = none)
    (found : s.invoice? p.invoice = some i) (status : p.status = .failed) :
    ({ s with payments := s.payments ++ [p] } : Store).Balanced where
  invoicesApart := h.invoicesApart
  paymentsApart := h.apart_append hnew
  balance j hj := by
    rw [paid_append rfl, if_neg (by simp [status]), Int.add_zero]
    exact h.balance j hj
  named q hq := by
    rcases List.mem_append.mp hq with hq | hq
    · exact h.named q hq
    · cases List.mem_singleton.mp hq
      exact ⟨i, Table.mem_of_find? found, id_of_invoice? found⟩

/-- An invoice keeps its identifier when its balance is replaced. -/
theorem exists_put (h : s.Balanced) {j : Invoice} (hj : j ∈ s.invoices) :
    ∃ k ∈ Table.put (·.id) { i with balance } s.invoices, k.id = j.id := by
  by_cases he : j.id = i.id
  · exact ⟨{ i with balance }, h.invoicesApart.mem_put_iff.mpr (Or.inl rfl), he.symm⟩
  · exact ⟨j, h.invoicesApart.mem_put_iff.mpr (Or.inr ⟨hj, he⟩), rfl⟩

/-- A payment that was made is taken off the balance of its invoice, and of no other. -/
theorem insert_paid (h : s.Balanced) (hnew : s.payment? p.id = none)
    (found : s.invoice? p.invoice = some i) (status : p.status = .success)
    (lower : balance.value = i.balance.value - p.amount.value) :
    ({ s with
      invoices := Table.put (·.id) { i with balance } s.invoices
      payments := s.payments ++ [p] } : Store).Balanced where
  invoicesApart := h.invoicesApart.put _
  paymentsApart := h.apart_append hnew
  balance := by
    have hid : i.id = p.invoice := id_of_invoice? found
    intro j hj
    rw [paid_append rfl]
    rcases h.invoicesApart.mem_put_iff.mp hj with rfl | ⟨hj, hne⟩
    · -- The invoice that is paid: both sides go down by the payment.
      have hold := h.balance i (Table.mem_of_find? found)
      rw [if_pos ⟨hid.symm, status⟩]
      show balance.value = i.amount.value - (s.paid i.id + p.amount.value)
      omega
    · rw [if_neg (fun hpaid => hne (hpaid.1.symm.trans hid.symm)), Int.add_zero]
      exact h.balance j hj
  named q hq := by
    rcases List.mem_append.mp hq with hq | hq
    · obtain ⟨j, hj, hq⟩ := h.named q hq
      obtain ⟨k, hk, hkj⟩ := h.exists_put hj
      exact ⟨k, hk, hkj.trans hq⟩
    · cases List.mem_singleton.mp hq
      have hid : i.id = p.invoice := id_of_invoice? found
      exact ⟨{ i with balance }, h.invoicesApart.mem_put_iff.mpr (Or.inl rfl), hid⟩

/-- One posting keeps the ledger in agreement with itself. -/
theorem posted {e : Posting} {answer : Except PaymentFault Unit} (h : s.Balanced)
    (new : e.New s) (hp : Posted s e answer t) : t.Balanced := by
  cases hp with
  | invoice => exact h.insert_invoice new.1 new.2
  | failed found status => exact h.insert_failed new found status
  | paid found status lower => exact h.insert_paid new found status lower
  | unknown => exact h
  | overflow => exact h

end Balanced

end Store

/-! ## Any number of postings -/

namespace Vault

/-- Each posting is new at its time. -/
def New (v : Vault) : List Posting → Prop
  | [] => True
  | e :: es => e.New v.tables ∧ (v.post e).2.New es

instance (v : Vault) : DecidablePred v.New := go v
where
  go : (v : Vault) → (es : List Posting) → Decidable (v.New es)
  | _, [] => isTrue trivial
  | v, e :: es =>
    have := go (v.post e).2 es
    inferInstanceAs (Decidable (e.New v.tables ∧ (v.post e).2.New es))

theorem balanced_after {v : Vault} {es : List Posting} (h : v.tables.Balanced) (new : v.New es) :
    (v.after es).tables.Balanced := by
  induction es generalizing v with
  | nil => exact h
  | cons e es ih => exact ih (h.posted new.1 (posted new.1)) new.2

/-- What holds of a vault at every time. -/
structure Ledger (v : Vault) : Prop where
  /-- Balances agree with payments. -/
  balanced : v.tables.Balanced
  /-- The writes of a payment are as good as one step. -/
  whole : ∀ p : Payment, v.tables.recordPayment p =
    match v.post (.payment p) with
    | (.ok _, w) => .ok w.tables
    | (.error fault, _) => .error fault
  /-- What the next posting comes to. -/
  next : ∀ e : Posting, e.New v.tables → Posted v.tables e (v.post e).1 (v.post e).2.tables
  /-- An attempt to pay that failed moves no balance, whatever it bears. -/
  unmoved : ∀ p : Payment, p.status = .failed →
    (v.post (.payment p)).2.tables.invoices = v.tables.invoices
  /-- A posting that fails leaves all tables. -/
  untouched : ∀ e fault, (v.post e).1 = .error fault → (v.post e).2.tables = v.tables
  /-- What comes after a posting that fails goes as if that had never been. -/
  unharmed : ∀ e fault, (v.post e).1 = .error fault → ∀ es,
    (v.post e).2.answers es = v.answers es ∧ ((v.post e).2.after es).tables = (v.after es).tables

/-- From an empty vault on, postings under new identifiers keep an exact ledger, whichever of them
fail or panic. -/
theorem ledger_exact {es : List Posting} (new : Vault.empty.New es) :
    (Vault.empty.after es).Ledger where
  balanced := balanced_after Store.balanced_empty new
  whole := recordPayment_eq _
  next _ := posted
  unmoved _ := invoices_of_failed
  untouched _ _ := tables_of_error
  unharmed _ _ h es := answers_congr es (tables_of_error h)

/-- An invoice over nothing. -/
def blank : Invoice := ⟨.numbered 1, .numbered 0, .numbered 0, .committed, .zero, .zero, .epoch⟩

/-- An attempt to pay an invoice. -/
def attempt (n invoice : Nat) (amount : Amount) (status : PaymentStatus) : Posting :=
  .payment ⟨.numbered n, .numbered 0, .numbered invoice, amount, status, none, .epoch⟩

/-- A day at the vault: the second posting panics, the third names no invoice, and the fourth was
not made. Then the invoice is overpaid by seven. -/
def day : List Posting :=
  [.invoice blank,
    attempt 2 1 ⟨-9223372036854775808, by decide⟩ .success,
    attempt 3 9 ⟨5, by decide⟩ .success,
    attempt 4 1 ⟨5, by decide⟩ .failed,
    attempt 5 1 ⟨7, by decide⟩ .success]

/-- After the panic the lock is poisoned, and payments are recorded all the same. -/
theorem ledger_exact_day :
    Vault.empty.New day ∧ (Vault.empty.after day).Ledger ∧
      (Vault.empty.after (day.take 2)).poisoned = true ∧
      (Vault.empty.after day).tables.invoices.map (·.balance.value) = [-7] ∧
      (Vault.empty.after day).tables.payments.map (·.id) = [.numbered 4, .numbered 5] :=
  have new : Vault.empty.New day := by decide
  ⟨new, ledger_exact new, by decide, by decide, by decide⟩

end Vault

end Billing
