import Billing.Proofs.Numbering
import Billing.Proofs.Table
import Billing.Proofs.Pipeline.Settlement

/-!
# What the books keep

Whatever is done to the books is one of few entries. As long as no identifier is handed out twice,
an entry keeps every payment as it is, every invoice up to its balance, every subscription with its
account, and every account up to its tags. Only who has an invoice in hand changes its balance.
-/

namespace Billing

/-! ## Records that stay -/

namespace Store

/-- The payment with an identifier, if there is one. -/
def payment? (s : Store) (id : PaymentId) : Option Payment := Table.find? (·.id) id s.payments

/-- What one store holds another holds as well, up to the balance of invoices. -/
structure Keeps (s t : Store) : Prop where
  payments : ∀ {id p}, s.payment? id = some p → t.payment? id = some p
  invoices : ∀ {id i}, s.invoice? id = some i → ∃ balance, t.invoice? id = some { i with balance }

theorem Keeps.refl (s : Store) : s.Keeps s := ⟨fun h => h, fun {_ i} h => ⟨i.balance, h⟩⟩

theorem Keeps.trans {s t u : Store} (h : s.Keeps t) (k : t.Keeps u) : s.Keeps u where
  payments hp := k.payments (h.payments hp)
  invoices hi := by
    obtain ⟨b, hb⟩ := h.invoices hi
    obtain ⟨c, hc⟩ := k.invoices hb
    exact ⟨c, hc⟩

/-- Two stores differ in invoices and payments at most. -/
structure Beside (s t : Store) : Prop where
  accounts : t.accounts = s.accounts
  subscriptions : t.subscriptions = s.subscriptions
  audit : t.audit = s.audit

theorem Beside.refl (s : Store) : s.Beside s := ⟨rfl, rfl, rfl⟩

theorem beside_recordPayment {s t : Store} {p : Payment} (h : s.recordPayment p = .ok t) :
    s.Beside t := by
  unfold recordPayment at h
  cases hi : s.invoice? p.invoice with
  | none => simp [hi] at h
  | some i =>
      cases hstatus : p.status with
      | failed =>
          simp only [hi, hstatus] at h
          cases h
          exact ⟨rfl, rfl, rfl⟩
      | success =>
          cases hbalance : i.balance.sub? p.amount with
          | none => simp [hi, hstatus, hbalance] at h
          | some balance =>
              simp only [hi, hstatus, hbalance] at h
              cases h
              exact ⟨rfl, rfl, rfl⟩

section Lookup

variable (s : Store)

theorem account?_insertAccount (a : Account) (id : AccountId) :
    (s.insertAccount a).account? id = if a.id = id then some a else s.account? id :=
  Table.find?_put ..

theorem subscription?_insertSubscription (x : Subscription) (id : SubscriptionId) :
    (s.insertSubscription x).subscription? id = if x.id = id then some x else s.subscription? id :=
  Table.find?_put ..

theorem invoice?_insertInvoice (i : Invoice) (id : InvoiceId) :
    (s.insertInvoice i).invoice? id = if i.id = id then some i else s.invoice? id :=
  Table.find?_put ..

theorem payment?_insertPayment (p : Payment) (id : PaymentId) :
    (s.insertPayment p).payment? id = if p.id = id then some p else s.payment? id :=
  Table.find?_put ..

variable {s}

theorem id_of_account? {a : Account} {id : AccountId} (h : s.account? id = some a) : a.id = id :=
  Table.key_of_find? h

theorem id_of_subscription? {x : Subscription} {id : SubscriptionId}
    (h : s.subscription? id = some x) : x.id = id :=
  Table.key_of_find? h

theorem id_of_invoice? {i : Invoice} {id : InvoiceId} (h : s.invoice? id = some i) : i.id = id :=
  Table.key_of_find? h

end Lookup

end Store

theorem Id.handedOut_of_find?_put {α : Type} {k : IdKind} {key : α → Id k} {row r : α}
    {rows : List α} {n : Nat} {id : Id k} (hrow : (key row).HandedOut n)
    (hrows : ∀ {id r}, Store.Table.find? key id rows = some r → id.HandedOut n)
    (h : Store.Table.find? key id (Store.Table.put key row rows) = some r) : id.HandedOut n := by
  rw [Store.Table.find?_put] at h
  split at h
  · rename_i he
    rw [← he]
    exact hrow
  · exact hrows h

namespace Pipeline

/-! ## Entries -/

/-- What can be done to the books at once, by somebody who may have an invoice in hand, or may
replace the tags of an account. -/
inductive Books.Entry (b : Books) (hand : Option Invoice) (retagged : Option AccountId) :
    Books → Prop where
  | nothing : Entry b hand retagged b
  /-- An identifier is handed out for nothing that is kept. -/
  | spent : Entry b hand retagged ⟨b.store, b.fresh + 1⟩
  | invoice {i : Invoice} (id : i.id = .numbered b.fresh) :
      Entry b hand retagged ⟨b.store.insertInvoice i, b.fresh + 1⟩
  | payment {p : Payment} (id : p.id = .numbered b.fresh) :
      Entry b hand retagged ⟨b.store.insertPayment p, b.fresh + 1⟩
  /-- The invoice in hand is paid. -/
  | paid {i j : Invoice} {p : Payment} {balance : Amount} (held : hand = some i)
      (found : b.store.invoice? i.id = some j) (id : p.id = .numbered b.fresh) :
      Entry b hand retagged
        ⟨(b.store.insertInvoice { j with balance }).insertPayment p, b.fresh + 1⟩
  | account {a : Account} (id : a.id = .numbered b.fresh) :
      Entry b hand retagged ⟨b.store.insertAccount a, b.fresh + 1⟩
  | tags {a : Account} {id : AccountId} {tags : ControlTagSet} (asked : retagged = some id)
      (found : b.store.account? id = some a) :
      Entry b hand retagged ⟨b.store.insertAccount { a with tags }, b.fresh⟩
  | opening {x : Subscription} (id : x.id = .numbered b.fresh) :
      Entry b hand retagged ⟨b.store.insertSubscription x, b.fresh + 2⟩
  | change {x y : Subscription} {id : SubscriptionId} (found : b.store.subscription? id = some x)
      (same : y.id = x.id) (account : y.account = x.account) :
      Entry b hand retagged ⟨b.store.insertSubscription y, b.fresh⟩
  | audit {e : AuditEntry} : Entry b hand retagged ⟨b.store.recordAudit e, b.fresh⟩

/-- All records are found under identifiers that have been handed out. -/
structure Books.Numbered (b : Books) : Prop where
  accounts : ∀ {id a}, b.store.account? id = some a → id.HandedOut b.fresh
  subscriptions : ∀ {id x}, b.store.subscription? id = some x → id.HandedOut b.fresh
  invoices : ∀ {id i}, b.store.invoice? id = some i → id.HandedOut b.fresh
  payments : ∀ {id p}, b.store.payment? id = some p → id.HandedOut b.fresh

namespace Books.Entry

variable {b b' : Books} {hand : Option Invoice} {retagged : Option AccountId}

theorem fresh_le (h : Entry b hand retagged b') : b.fresh ≤ b'.fresh := by
  cases h with
  | nothing => exact Nat.le_refl _
  | tags => exact Nat.le_refl _
  | change => exact Nat.le_refl _
  | audit => exact Nat.le_refl _
  | opening => exact Nat.le_add_right _ 2
  | _ => exact Nat.le_succ _

/-- What was found is found after an entry, whatever is handed out. -/
theorem finds_account (h : Entry b hand retagged b') {id : AccountId}
    (ha : b.store.account? id ≠ none) : b'.store.account? id ≠ none := by
  cases h with
  | account => exact Store.Table.finds_put _ ha
  | tags => exact Store.Table.finds_put _ ha
  | _ => exact ha

theorem finds_invoice (h : Entry b hand retagged b') {id : InvoiceId}
    (hi : b.store.invoice? id ≠ none) : b'.store.invoice? id ≠ none := by
  cases h with
  | invoice => exact Store.Table.finds_put _ hi
  | paid => exact Store.Table.finds_put _ hi
  | _ => exact hi

/-- A record that an entry puts bears the next identifier, or one that was found before. -/
theorem numbered (h : Entry b hand retagged b') (hn : b.Numbered) : b'.Numbered := by
  have hle := h.fresh_le
  have hold : Books.Numbered ⟨b.store, b'.fresh⟩ := {
    accounts := fun hx => (hn.accounts hx).mono hle
    subscriptions := fun hx => (hn.subscriptions hx).mono hle
    invoices := fun hx => (hn.invoices hx).mono hle
    payments := fun hx => (hn.payments hx).mono hle }
  cases h with
  | nothing => exact hn
  | spent => exact hold
  | audit => exact ⟨hold.accounts, hold.subscriptions, hold.invoices, hold.payments⟩
  | invoice hi =>
      have hid := hi ▸ Id.handedOut_succ b.fresh
      exact { hold with invoices := Id.handedOut_of_find?_put hid hold.invoices }
  | payment hp =>
      have hid := hp ▸ Id.handedOut_succ b.fresh
      exact { hold with payments := Id.handedOut_of_find?_put hid hold.payments }
  | paid _ hj hp =>
      have hid := hp ▸ Id.handedOut_succ b.fresh
      have hold' := hold.invoices (Store.id_of_invoice? hj ▸ hj)
      exact { hold with
        invoices := Id.handedOut_of_find?_put hold' hold.invoices
        payments := Id.handedOut_of_find?_put hid hold.payments }
  | account ha =>
      have hid := ha ▸ Id.handedOut_succ b.fresh
      exact { hold with accounts := Id.handedOut_of_find?_put hid hold.accounts }
  | tags _ ha =>
      have hold' := hold.accounts (Store.id_of_account? ha ▸ ha)
      exact { hold with accounts := Id.handedOut_of_find?_put hold' hold.accounts }
  | opening hx =>
      have hid := (hx ▸ Id.handedOut_succ b.fresh).mono (Nat.le_succ (b.fresh + 1))
      exact { hold with subscriptions := Id.handedOut_of_find?_put hid hold.subscriptions }
  | change hx hs _ =>
      have hold' := hold.subscriptions (Store.id_of_subscription? hx ▸ hx)
      exact { hold with subscriptions := Id.handedOut_of_find?_put (hs ▸ hold') hold.subscriptions }

section Kept

variable (h : Entry b hand retagged b') (hn : b.Numbered) (hf : b.fresh < Id.supply)
include h hn hf

/-- Only who has an invoice in hand changes its balance. -/
theorem invoice?_of_ne {id : InvoiceId} {i : Invoice} (hi : b.store.invoice? id = some i)
    (hh : ∀ j, hand = some j → j.id ≠ id) : b'.store.invoice? id = some i := by
  cases h with
  | @invoice j hj =>
      rw [Store.invoice?_insertInvoice, if_neg]
      · exact hi
      · rw [hj]
        exact (hn.invoices hi).ne hf
  | @paid j k p balance hj hk hp =>
      show (b.store.insertInvoice { k with balance }).invoice? id = some i
      rw [Store.invoice?_insertInvoice, if_neg]
      · exact hi
      · show k.id ≠ id
        rw [Store.id_of_invoice? hk]
        exact hh j hj
  | _ => exact hi

theorem keeps : b.store.Keeps b'.store where
  payments {id p} hp := by
    cases h with
    | @payment q hq =>
        rw [Store.payment?_insertPayment, if_neg]
        · exact hp
        · rw [hq]
          exact (hn.payments hp).ne hf
    | @paid j k q balance hj hk hq =>
        rw [Store.payment?_insertPayment, if_neg]
        · exact hp
        · rw [hq]
          exact (hn.payments hp).ne hf
    | _ => exact hp
  invoices {id i} hi := by
    by_cases hh : ∀ j, hand = some j → j.id ≠ id
    · exact ⟨i.balance, h.invoice?_of_ne hn hf hi hh⟩
    · cases h with
      | @invoice j hj =>
          rw [Store.invoice?_insertInvoice, if_neg]
          · exact ⟨i.balance, hi⟩
          · rw [hj]
            exact (hn.invoices hi).ne hf
      | @paid j k p balance hj hk hp =>
          -- The invoice in hand is the one that is looked for.
          obtain ⟨l, hl, he⟩ : ∃ l, hand = some l ∧ l.id = id := by simpa using hh
          rw [hj] at hl
          cases hl
          rw [he, hi] at hk
          cases hk
          refine ⟨balance, ?_⟩
          show (b.store.insertInvoice { i with balance }).invoice? id = _
          rw [Store.invoice?_insertInvoice, if_pos]
          show i.id = id
          exact Store.id_of_invoice? hi
      | _ => exact ⟨i.balance, hi⟩

theorem subscription? {id : SubscriptionId} {x : Subscription}
    (hx : b.store.subscription? id = some x) :
    ∃ y, b'.store.subscription? id = some y ∧ y.account = x.account := by
  cases h with
  | @opening y hy =>
      refine ⟨x, ?_, rfl⟩
      rw [Store.subscription?_insertSubscription, if_neg]
      · exact hx
      · rw [hy]
        exact (hn.subscriptions hx).ne hf
  | @change y z id' hy hs ha =>
      rw [Store.subscription?_insertSubscription]
      split
      · rename_i he
        rw [hs, Store.id_of_subscription? hy] at he
        rw [he, hx] at hy
        cases hy
        exact ⟨z, rfl, ha⟩
      · exact ⟨x, hx, rfl⟩
  | _ => exact ⟨x, hx, rfl⟩

theorem account? {id : AccountId} {a : Account} (ha : b.store.account? id = some a) :
    ∃ tags, b'.store.account? id = some { a with tags } ∧
      (retagged ≠ some id → tags = a.tags) := by
  cases h with
  | @account c hc =>
      refine ⟨a.tags, ?_, fun _ => rfl⟩
      show (b.store.insertAccount c).account? id = some a
      rw [Store.account?_insertAccount, if_neg]
      · exact ha
      · rw [hc]
        exact (hn.accounts ha).ne hf
  | @tags c id' tags hr hc =>
      show ∃ t, (b.store.insertAccount { c with tags }).account? id = _ ∧ _
      rw [Store.account?_insertAccount]
      split
      · rename_i he
        have he : c.id = id := he
        rw [Store.id_of_account? hc] at he
        subst he
        rw [ha] at hc
        cases hc
        exact ⟨tags, rfl, fun hne => absurd hr hne⟩
      · exact ⟨a.tags, ha, fun _ => rfl⟩
  | _ => exact ⟨a.tags, ha, fun _ => rfl⟩

end Kept

end Books.Entry

/-! ## Runs -/

theorem pay_entry {b : Books} {hand : Option Invoice} {retagged : Option AccountId} {o : Order}
    {i : Invoice} {status : PaymentStatus} {message : Option String} {now : Instant} {next : Phase}
    (h : hand = some i) :
    b.Entry hand retagged
      (b.pay (o.payment (.numbered b.fresh) i status message now) next).books := by
  unfold Books.pay Store.recordPayment
  cases hj : b.store.invoice? i.id with
  | none =>
      simp only [Order.payment, hj]
      exact .spent
  | some j =>
      simp only [Order.payment, hj]
      cases status with
      | failed => exact .payment rfl
      | success =>
          simp only
          cases j.balance.sub? i.balance with
          | none => exact .spent
          | some balance => exact .paid h hj rfl

/-- A step of a run makes one entry, and pays no invoice but the one in hand. -/
theorem Phase.step_entry (p : Phase) (o : Order) (b : Books) (now : Instant)
    (retagged : Option AccountId) :
    b.Entry p.invoice? retagged (p.step o b now).books := by
  cases p with
  | queued =>
      simp only [step]
      split <;> exact .nothing
  | transitioning t =>
      simp only [step]
      split <;> exact .nothing
  | drafting t =>
      simp only [step]
      split
      · exact .invoice rfl
      · exact .nothing
  | invoicing t =>
      simp only [step]
      split
      · exact .nothing
      · exact .invoice rfl
  | announcing t i =>
      simp only [step]
      split <;> exact .nothing
  | paying t i =>
      simp only [step]
      split
      · exact pay_entry rfl
      · exact pay_entry rfl
  | _ => exact .nothing

/-- A run writes nothing but invoices and payments. -/
theorem Phase.step_beside (p : Phase) (o : Order) (b : Books) (now : Instant) :
    b.store.Beside (p.step o b now).books.store := by
  have hpay : ∀ q next, b.store.Beside (b.pay q next).books.store := by
    intro q next
    unfold Books.pay
    split
    · rename_i store hrecord
      exact Store.beside_recordPayment hrecord
    · exact .refl _
  cases p with
  | paying t i =>
      simp only [step]
      split
      · exact hpay _ _
      · exact hpay _ _
  | drafting t =>
      simp only [step]
      split
      · exact ⟨rfl, rfl, rfl⟩
      · exact .refl _
  | invoicing t =>
      simp only [step]
      split
      · exact .refl _
      · exact ⟨rfl, rfl, rfl⟩
  | queued | transitioning | announcing =>
      simp only [step]
      split <;> exact .refl _
  | _ => exact .refl _

end Pipeline

end Billing
