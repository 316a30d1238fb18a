import Mathlib.Data.List.Induction
import Billing.Proofs.Pipeline.Charges
import Billing.Proofs.Service.Stages

/-!
# Runs that come between each other

Any number of runs over any records take their steps in any order, while tags are replaced, the
audit log is written, the clock is set and time passes. What each of them files in all is what its order comes to by the
account as it was read, whatever the others do between its steps.
-/

namespace Billing.Pipeline

open Completion (CallContext)

/-! ## Occurrences -/

/-- Something that happens while runs are under way. -/
inductive Occurrence where
  | stepRun (n : Nat)
  | replaceTags (account : AccountId) (tags : ControlTagSet)
  | audit (x : CallContext) (account : AccountId) (action : String)
  | setClock (now : Instant)
  | pass (moment : Nat)

namespace Books

variable {b b' : Books} {hand : Option Invoice} {retagged : Option AccountId} {last : Nat}

theorem Entry.unspent (h : b.Entry hand retagged b') (hb : b.Unspent last)
    (hle : b'.fresh ≤ last) : b'.Unspent last := by
  have hne : ∀ {kind : IdKind} {k : Nat}, b.fresh + 1 ≤ k → k < last →
      (.numbered b.fresh : Id kind) ≠ .numbered k := by
    intro kind k hk hlast he
    have := Id.eq_of_numbered_eq (by have := hb.supply; omega) (by have := hb.supply; omega) he
    omega
  have hinvoices : ∀ k, b.fresh + 1 ≤ k → k < last → b.store.invoice? (.numbered k) = none :=
    fun k hk => hb.invoices k (Nat.le_of_succ_le hk)
  have hpayments : ∀ k, b.fresh + 1 ≤ k → k < last → b.store.payment? (.numbered k) = none :=
    fun k hk => hb.payments k (Nat.le_of_succ_le hk)
  have hput : ∀ {s : Store} {q : Payment}, q.id = .numbered b.fresh →
      (∀ id, s.payment? id = b.store.payment? id) → ∀ k, b.fresh + 1 ≤ k → k < last →
        (s.insertPayment q).payment? (.numbered k) = none := by
    intro s q hid hsame k hk hlast
    rw [Store.payment?_insertPayment, if_neg, hsame]
    · exact hpayments k hk hlast
    · rw [hid]
      exact hne hk hlast
  cases h with
  | nothing => exact hb
  | spent => exact ⟨hb.supply, hinvoices, hpayments⟩
  | @invoice i hid =>
      refine ⟨hb.supply, fun k hk hlast => ?_, hpayments⟩
      rw [Store.invoice?_insertInvoice, if_neg]
      · exact hinvoices k hk hlast
      · rw [hid]
        exact hne hk hlast
  | payment hid => exact ⟨hb.supply, hinvoices, hput hid fun _ => rfl⟩
  | @paid i j q balance _ hfound hid =>
      refine ⟨hb.supply, fun k hk hlast => ?_, hput hid fun _ => rfl⟩
      show (b.store.insertInvoice { j with balance }).invoice? (.numbered k) = none
      rw [Store.invoice?_insertInvoice, if_neg]
      · exact hinvoices k hk hlast
      · -- The invoice that is paid was found before.
        intro hk'
        have hj : j.id = .numbered k := hk'
        rw [← Store.id_of_invoice? hfound, hj, hinvoices k hk hlast] at hfound
        cases hfound
  | account => exact ⟨hb.supply, hinvoices, hpayments⟩
  | opening =>
      exact ⟨hb.supply, fun k hk => hb.invoices k (Nat.le_of_add_right_le hk),
        fun k hk => hb.payments k (Nat.le_of_add_right_le hk)⟩
  | _ => exact ⟨hb.supply, hb.invoices, hb.payments⟩

end Books

namespace Works

variable {w : Works} {e : Occurrence} {es past rest : List Occurrence} {m n last : Nat} {r : Run}
  {o : Order} {a : Account} {i? j? : Option Invoice} {q? r? : Option Payment}
  {p : Store → Prop}

/-- What an occurrence makes of the works. -/
def take (w : Works) : Occurrence → Works
  | .stepRun n => w.stepRun n
  | .replaceTags id tags => (Service.replaceTags w id tags).2
  | .audit x id action => Service.audit w x id action
  | .setClock now => w.setClock now
  | .pass moment => w.passTo moment

/-- What occurrences in order make of the works. -/
def play (w : Works) (es : List Occurrence) : Works := es.foldl take w

theorem play_append : w.play (past ++ rest) = (w.play past).play rest := List.foldl_append

theorem play_concat : w.play (es ++ [e]) = (w.play es).take e := play_append

/-- An occurrence makes one entry in the books. -/
theorem take_entry (w : Works) (e : Occurrence) :
    ∃ hand retagged, w.books.Entry hand retagged (w.take e).books := by
  cases e with
  | stepRun n =>
      simp only [take]
      cases hm : w.mover? n with
      | none =>
          rw [stepRun_of_mover?_none hm]
          exact ⟨none, none, .nothing⟩
      | some r =>
          rw [stepRun_of_mover? hm]
          exact ⟨_, none, r.phase.step_entry r.order w.books w.clock none⟩
  | replaceTags id tags =>
      simp only [take, Service.replaceTags, Store.setTags]
      cases ha : w.store.account id with
      | error => exact ⟨none, none, .nothing⟩
      | ok a => exact ⟨none, some id, .tags rfl (Service.Command.store_account_ok ha)⟩
  | audit x id action => exact ⟨none, none, .audit⟩
  | _ => exact ⟨none, none, .nothing⟩

theorem fresh_le_play (w : Works) (es : List Occurrence) :
    w.books.fresh ≤ (w.play es).books.fresh := by
  induction es generalizing w with
  | nil => exact Nat.le_refl _
  | cons e es ih =>
      obtain ⟨_, _, he⟩ := w.take_entry e
      exact Nat.le_trans he.fresh_le (ih (w.take e))

theorem unspent_play (h : w.books.Unspent last) (hle : (w.play es).books.fresh ≤ last) :
    (w.play es).books.Unspent last := by
  induction es generalizing w with
  | nil => exact h
  | cons e es ih =>
      obtain ⟨_, _, he⟩ := w.take_entry e
      exact ih (he.unspent h (Nat.le_trans (fresh_le_play _ es) hle)) hle

/-- An occurrence in which no run takes a step leaves all runs and what they have filed. -/
theorem take_cases (w : Works) (e : Occurrence) :
    ((w.take e).runs = w.runs ∧ (w.take e).store.invoices = w.store.invoices ∧
      (w.take e).store.payments = w.store.payments) ∨
      ∃ n r, e = .stepRun n ∧ w.mover? n = some r := by
  cases e with
  | stepRun n =>
      cases hm : w.mover? n with
      | none =>
          rw [take, stepRun_of_mover?_none hm]
          exact Or.inl ⟨rfl, rfl, rfl⟩
      | some r => exact Or.inr ⟨n, r, rfl, hm⟩
  | replaceTags id tags =>
      refine Or.inl ?_
      simp only [take, Service.replaceTags, Store.setTags]
      cases w.store.account id with
      | error => exact ⟨rfl, rfl, rfl⟩
      | ok a => exact ⟨rfl, rfl, rfl⟩
  | _ => exact Or.inl ⟨rfl, rfl, rfl⟩

/-- What takes a step is the run itself, and it is on its way. -/
theorem eq_of_mover? {s : Run} (hr : w.runs[n]? = some r) (hm : w.mover? n = some s) :
    s = r ∧ r.phase ≠ .ended := by
  obtain ⟨hs, hphase, _⟩ := mover?_eq_some_iff.mp hm
  rw [hr] at hs
  cases hs
  exact ⟨rfl, hphase⟩

/-- Accounts neither come nor go. -/
theorem account?_take (w : Works) (e : Occurrence) (id : AccountId) :
    (w.take e).store.account? id = none ↔ w.store.account? id = none := by
  cases e with
  | stepRun n =>
      unfold Store.account? take
      rw [(w.stepRun_beside n).accounts]
  | replaceTags id' tags =>
      simp only [take, Service.replaceTags, Store.setTags]
      cases ha : w.store.account id' with
      | error => exact Iff.rfl
      | ok a =>
          have hfound := Service.Command.store_account_ok ha
          show (w.store.insertAccount { a with tags }).account? id = none ↔ _
          rw [Store.account?_insertAccount]
          split
          · rename_i he
            have he : a.id = id := he
            rw [← he, Store.id_of_account? hfound, hfound]
            exact ⟨fun h => (nomatch h), fun h => (nomatch h)⟩
          · exact Iff.rfl
  | _ => exact Iff.rfl

theorem account?_play (w : Works) (es : List Occurrence) (id : AccountId) :
    (w.play es).store.account? id = none ↔ w.store.account? id = none := by
  induction es generalizing w with
  | nil => exact Iff.rfl
  | cons e es ih => exact (ih (w.take e)).trans (account?_take w e id)

/-! ## Who has written what -/

/-- A step of a run on the way makes something true of the records. -/
def Writes (w : Works) (es : List Occurrence) (n : Nat) (p : Store → Prop) : Prop :=
  ∃ past rest, es = past ++ .stepRun n :: rest ∧ ¬ p (w.play past).store ∧
    p ((w.play past).stepRun n).store

theorem writes_concat : w.Writes (es ++ [e]) n p ↔
    w.Writes es n p ∨
      e = .stepRun n ∧ ¬ p (w.play es).store ∧ p ((w.play es).stepRun n).store := by
  constructor
  · rintro ⟨past, rest, he, hnot, hp⟩
    rcases split_append he.symm with ⟨more, hes, _⟩ | ⟨more, hpast, hlast⟩
    · exact Or.inl ⟨past, more, hes, hnot, hp⟩
    · -- The step is the last of all.
      obtain ⟨rfl, hlast⟩ | ⟨_, hnil⟩ := List.append_eq_singleton_iff.mp hlast.symm
      · cases hlast
        rw [List.append_nil] at hpast
        subst hpast
        exact Or.inr ⟨rfl, hnot, hp⟩
      · cases hnil
  · rintro (⟨past, rest, rfl, hnot, hp⟩ | ⟨rfl, hnot, hp⟩)
    · exact ⟨past, rest ++ [e], by simp, hnot, hp⟩
    · exact ⟨es, [], rfl, hnot, hp⟩

theorem Writes.play (hp : ∀ {v : Works} e, p v.store → p (v.take e).store)
    (h : p w.store) (es : List Occurrence) : p (w.play es).store := by
  induction es generalizing w with
  | nil => exact h
  | cons e es ih => exact ih (hp e h)

/-- What stays true once it is true is made true by one run. -/
theorem Writes.unique (hp : ∀ {v : Works} e, p v.store → p (v.take e).store)
    (hm : w.Writes es m p) (hn : w.Writes es n p) : m = n := by
  have hlate : ∀ {k : Nat} {past more : List Occurrence}, p ((w.play past).stepRun k).store →
      p (w.play (past ++ .stepRun k :: more)).store := by
    intro k past more h
    rw [play_append]
    exact Writes.play hp (w := (w.play past).take (.stepRun k)) h more
  obtain ⟨past, rest, rfl, hnot, hafter⟩ := hm
  obtain ⟨past', rest', he, hnot', hafter'⟩ := hn
  rcases split_append he with ⟨more, rfl, _⟩ | ⟨more, rfl, hrest⟩
  · exact absurd (hlate hafter) hnot'
  · cases more with
    | nil =>
        cases hrest
        rfl
    | cons x more =>
        cases hrest
        exact absurd (hlate hafter') hnot

theorem found_invoice_take {id : InvoiceId} {v : Works} (e : Occurrence)
    (h : v.store.invoice? id ≠ none) : (v.take e).store.invoice? id ≠ none := by
  obtain ⟨_, _, he⟩ := v.take_entry e
  exact he.finds_invoice h

/-- The records that a run has filed so far are these, and they stand as they are here. -/
structure Filed (w : Works) (es : List Occurrence) (n : Nat) (i? : Option Invoice)
    (q? : Option Payment) : Prop where
  invoices : ∀ id, w.Writes es n (·.invoice? id ≠ none) ↔ ∃ i, i? = some i ∧ i.id = id
  payments : ∀ id, w.Writes es n (·.payment? id ≠ none) ↔ ∃ q, q? = some q ∧ q.id = id
  stores : (w.play es).books.Stores i? q?

theorem Filed.nil : w.Filed [] n none none := by
  have hnone : ∀ p, ¬ w.Writes [] n p := by
    rintro p ⟨past, rest, he, _⟩
    exact absurd he (by simp)
  refine ⟨fun id => ?_, fun id => ?_, ?_⟩
  · simp [hnone]
  · simp [hnone]
  · exact ⟨(fun _ h => nomatch h), fun _ h => nomatch h⟩

/-- A step of the run itself. -/
theorem Filed.step (h : w.Filed es n i? q?)
    (hf : (w.play es).books.Files i? q? ((w.play es).stepRun n).books j? r?)
    (hu : (w.play es).books.Unspent last) (hle : ((w.play es).stepRun n).books.fresh ≤ last) :
    w.Filed (es ++ [.stepRun n]) n j? r? where
  invoices id := by
    rw [writes_concat, h.invoices, ← hf.invoice_iff h.stores hu hle]
    simp [store]
  payments id := by
    rw [writes_concat, h.payments, ← hf.payment_iff hu hle]
    simp [store]
  stores := by
    rw [play_concat]
    exact hf.stores h.stores

/-- Anything else that leaves what the run has filed. -/
theorem Filed.other (h : w.Filed es n i? q?) (he : e ≠ .stepRun n)
    (hs : ((w.play es).take e).books.Stores i? q?) : w.Filed (es ++ [e]) n i? q? where
  invoices id := by
    rw [writes_concat, h.invoices]
    simp [he]
  payments id := by
    rw [writes_concat, h.payments]
    simp [he]
  stores := by
    rw [play_concat]
    exact hs

/-! ## Where a run stands -/

/-- In its first step a run has found this account. -/
def Reads (w : Works) (es : List Occurrence) (n : Nat) (id : AccountId) (a : Account) : Prop :=
  ∃ past rest r, es = past ++ .stepRun n :: rest ∧ (w.play past).mover? n = some r ∧
    r.phase = .queued ∧ (w.play past).store.account? id = some a

/-- Where a run stands that has filed these records. -/
inductive Standing (w : Works) (es : List Occurrence) (n : Nat) (r : Run) :
    Option Invoice → Option Payment → Prop where
  | queued (phase : r.phase = .queued) : Standing w es n r none none
  | lost (unknown : w.store.account? r.order.account = none) (phase : r.phase = .ended) :
      Standing w es n r none none
  | billing {a : Account} {i? : Option Invoice} {q? : Option Payment}
      (reads : w.Reads es n r.order.account a) (bills : r.phase.Bills r.order a i? q?) :
      Standing w es n r i? q?

theorem Standing.more (h : w.Standing es n r i? q?) (e : Occurrence) :
    w.Standing (es ++ [e]) n r i? q? := by
  cases h with
  | queued hp => exact .queued hp
  | lost hu hp => exact .lost hu hp
  | billing hreads hbills =>
      obtain ⟨past, rest, s, rfl, hs⟩ := hreads
      exact .billing ⟨past, rest ++ [e], s, by simp, hs⟩ hbills

theorem Standing.step (hr : (w.play es).runs[n]? = some r) (h : w.Standing es n r i? q?)
    (hs : (w.play es).books.Stores i? q?) :
    ∃ s j? r?, ((w.play es).stepRun n).runs[n]? = some s ∧ s.order = r.order ∧
      w.Standing (es ++ [.stepRun n]) n s j? r? ∧
        (w.play es).books.Files i? q? ((w.play es).stepRun n).books j? r? := by
  cases hm : (w.play es).mover? n with
  | none =>
      rw [stepRun_of_mover?_none hm]
      exact ⟨r, i?, q?, hr, rfl, h.more _, .nothing⟩
  | some r' =>
      obtain ⟨rfl, hphase⟩ := eq_of_mover? hr hm
      rw [stepRun_of_mover? hm]
      simp only
      have hnext : ((w.play es).runs.set n (r'.next (w.play es)))[n]? =
          some (r'.next (w.play es)) := (getElem?_set_eq_some_iff hr).mpr (Or.inl ⟨rfl, rfl⟩)
      cases h with
      | queued hq =>
          cases ha : (w.play es).store.account? r'.order.account with
          | none =>
              have hstep : r'.phase.step r'.order (w.play es).books (w.play es).clock =
                  .silent (w.play es).books .ended false := by
                rw [hq]
                exact Phase.step_unknown ha
              refine ⟨_, none, none, hnext, rfl, .lost ((account?_play w es _).mp ha) ?_, ?_⟩
              · rw [Run.next, hstep]
                rfl
              · rw [hstep]
                exact .nothing
          | some a =>
              have hstep : r'.phase.step r'.order (w.play es).books (w.play es).clock =
                  .silent (w.play es).books (.transitioning (.ofAccount a)) true := by
                rw [hq]
                exact Phase.step_known ha
              refine ⟨_, none, none, hnext, rfl, .billing ⟨es, [], r', rfl, hm, hq, ha⟩ ?_, ?_⟩
              · rw [Run.next, hstep]
                exact ⟨rfl, rfl, rfl⟩
              · rw [hstep]
                exact .nothing
      | lost _ hended => exact absurd hended hphase
      | billing hreads hbills =>
          obtain ⟨j?, r?, hbills', hfiles, _⟩ := Phase.step_bills (w.play es).clock hbills hs hphase
          refine ⟨_, j?, r?, hnext, rfl, ?_, hfiles⟩
          obtain ⟨past, rest, s, rfl, hread⟩ := hreads
          exact .billing ⟨past, rest ++ [.stepRun n], s, by simp, hread⟩ hbills'

/-- A run is followed from the start: where it stands, and what it has filed. -/
def Tracked (w : Works) (es : List Occurrence) (n : Nat) (o : Order) : Prop :=
  ∃ r i? q?, (w.play es).runs[n]? = some r ∧ r.order = o ∧ w.Standing es n r i? q? ∧
    w.Filed es n i? q?

theorem length_play (w : Works) (es : List Occurrence) :
    (w.play es).runs.length = w.runs.length := by
  induction es generalizing w with
  | nil => rfl
  | cons e es ih =>
      refine (ih (w.take e)).trans ?_
      rcases w.take_cases e with ⟨hruns, _⟩ | ⟨n, r, rfl, hm⟩
      · rw [hruns]
      · rw [take, stepRun_of_mover? hm]
        exact List.length_set

/-- A step of a run keeps all payments, and all invoices that the run has not written itself. -/
theorem Tracked.keeps (h : w.Tracked es m o) (hu : (w.play es).books.Unspent last)
    (hle : ((w.play es).stepRun m).books.fresh ≤ last) :
    (∀ id i, (w.play es).store.invoice? id = some i → ¬ w.Writes es m (·.invoice? id ≠ none) →
      ((w.play es).stepRun m).store.invoice? id = some i) ∧
    ∀ id q, (w.play es).store.payment? id = some q →
      ((w.play es).stepRun m).store.payment? id = some q := by
  obtain ⟨r, i?, q?, hr, _, hstanding, hfiled⟩ := h
  obtain ⟨_, j?, r?, _, _, _, hfiles⟩ := hstanding.step hr hfiled.stores
  refine ⟨fun id i hi hnot => ?_, fun id q hq => hfiles.keeps_payment hu hle hq⟩
  refine hfiles.keeps_invoice hu hle hi fun j hj hid => hnot ?_
  exact (hfiled.invoices id).mpr ⟨j, hj, hid⟩

/-- What a run has filed is kept by whatever is no step of its own. -/
theorem Filed.kept (h : w.Filed es n i? q?) (he : e ≠ .stepRun n)
    (hall : ∀ {m : Nat} {r : Run}, w.runs[m]? = some r → w.Tracked es m r.order)
    (hu : (w.play es).books.Unspent last) (hle : ((w.play es).take e).books.fresh ≤ last) :
    ((w.play es).take e).books.Stores i? q? := by
  rcases (w.play es).take_cases e with ⟨_, hinvoices, hpayments⟩ | ⟨m, r, rfl, hm⟩
  · constructor
    · intro i hi
      show Store.Table.find? _ _ ((w.play es).take e).store.invoices = _
      rw [hinvoices]
      exact h.stores.invoice i hi
    · intro q hq
      show Store.Table.find? _ _ ((w.play es).take e).store.payments = _
      rw [hpayments]
      exact h.stores.payment q hq
  · have hlt := (List.getElem?_eq_some_iff.mp (mover?_eq_some_iff.mp hm).1).1
    rw [length_play] at hlt
    obtain ⟨hinvoices, hpayments⟩ := (hall (List.getElem?_eq_getElem hlt)).keeps hu hle
    refine ⟨fun i hi => ?_, fun q hq => hpayments _ _ (h.stores.payment q hq)⟩
    refine hinvoices _ _ (h.stores.invoice i hi) fun hm' => he ?_
    -- No two runs have written the same invoice.
    have hn' := (h.invoices i.id).mpr ⟨i, hi, rfl⟩
    rw [Writes.unique found_invoice_take hm' hn']

theorem Tracked.step (h : w.Tracked es n o) (hu : (w.play es).books.Unspent last)
    (hle : ((w.play es).stepRun n).books.fresh ≤ last) :
    w.Tracked (es ++ [.stepRun n]) n o := by
  obtain ⟨r, i?, q?, hr, ho, hstanding, hfiled⟩ := h
  obtain ⟨s, j?, r?, hs, ho', hstanding', hfiles⟩ := hstanding.step hr hfiled.stores
  refine ⟨s, j?, r?, ?_, ho'.trans ho, hstanding', hfiled.step hfiles hu hle⟩
  rw [play_concat]
  exact hs

theorem Tracked.other (h : w.Tracked es n o) (he : e ≠ .stepRun n)
    (hall : ∀ {m : Nat} {r : Run}, w.runs[m]? = some r → w.Tracked es m r.order)
    (hu : (w.play es).books.Unspent last) (hle : ((w.play es).take e).books.fresh ≤ last) :
    w.Tracked (es ++ [e]) n o := by
  obtain ⟨r, i?, q?, hr, ho, hstanding, hfiled⟩ := h
  refine ⟨r, i?, q?, ?_, ho, hstanding.more e, hfiled.other he (hfiled.kept he hall hu hle)⟩
  rw [play_concat]
  rcases (w.play es).take_cases e with ⟨hruns, _⟩ | ⟨m, r', rfl, hm⟩
  · rw [hruns]
    exact hr
  · rw [take, stepRun_of_mover? hm]
    refine (getElem?_set_eq_some_iff (mover?_eq_some_iff.mp hm).1).mpr (Or.inr ⟨?_, hr⟩)
    rintro rfl
    exact he rfl

/-- Every run is followed through any occurrences in any order. -/
theorem tracked (hq : ∀ r ∈ w.runs, r.phase = .queued) (hu : w.books.Unspent last)
    (hle : (w.play es).books.fresh ≤ last) (hr : w.runs[n]? = some r) :
    w.Tracked es n r.order := by
  -- All runs are followed at once: that others keep what a run has filed is known of them only as far
  -- as they have been followed themselves.
  induction es using List.reverseRecOn generalizing n r with
  | nil =>
      exact ⟨r, none, none, hr, rfl, .queued (hq r (List.mem_of_getElem? hr)), .nil⟩
  | append_singleton es e ih =>
      rw [play_concat] at hle
      obtain ⟨_, _, hentry⟩ := (w.play es).take_entry e
      have hle' := Nat.le_trans hentry.fresh_le hle
      have hu' := unspent_play hu hle'
      by_cases he : e = .stepRun n
      · subst he
        exact (ih hle' hr).step hu' hle
      · exact (ih hle' hr).other he (ih hle') hu' hle

/-! ## What runs come to -/

/-- A run comes to its end in a step without announcing anything. -/
def Aborts (w : Works) (n : Nat) : Prop :=
  ∃ r, w.mover? n = some r ∧ (r.next w).phase = .ended ∧ r.news w = []

theorem Standing.not_aborts (hr : (w.play es).runs[n]? = some r) (h : w.Standing es n r i? q?)
    (hs : (w.play es).books.Stores i? q?) (ha : w.store.account? r.order.account ≠ none) :
    ¬ (w.play es).Aborts n := by
  rintro ⟨r', hm, hended, hnews⟩
  obtain ⟨rfl, hphase⟩ := eq_of_mover? hr hm
  cases h with
  | queued hq =>
      -- The account is found, so that the run goes on.
      cases hfound : (w.play es).store.account? r'.order.account with
      | none => exact ha ((account?_play w es _).mp hfound)
      | some a =>
          rw [Run.next, hq, Phase.step_known hfound] at hended
          cases hended
  | lost hunknown _ => exact ha hunknown
  | billing _ hbills =>
      obtain ⟨_, _, _, _, hannounces⟩ := Phase.step_bills (w.play es).clock hbills hs hphase
      refine hannounces hended ?_
      simpa [Run.news] using hnews

/-- A run whose account is unknown does nothing in a step. -/
theorem Standing.idle (hr : (w.play es).runs[n]? = some r) (h : w.Standing es n r i? q?)
    (ha : w.store.account? r.order.account = none) :
    ((w.play es).stepRun n).books = (w.play es).books ∧
      ((w.play es).stepRun n).published = (w.play es).published := by
  cases hm : (w.play es).mover? n with
  | none =>
      rw [stepRun_of_mover?_none hm]
      exact ⟨rfl, rfl⟩
  | some r' =>
      obtain ⟨rfl, hphase⟩ := eq_of_mover? hr hm
      cases h with
      | queued hq =>
          rw [stepRun_of_mover? hm, Run.news, hq,
            Phase.step_unknown ((account?_play w es _).mpr ha)]
          exact ⟨rfl, List.append_nil _⟩
      | lost _ hended => exact absurd hended hphase
      | billing hreads _ =>
          obtain ⟨past, _, _, _, _, _, hfound⟩ := hreads
          rw [(account?_play w past _).mpr ha] at hfound
          cases hfound

/-- A payment is of the balance as it stands, so that nothing is left of it. -/
theorem Standing.no_overflow {t : Terms} {i : Invoice} (h : w.Standing es n r i? q?)
    (hs : (w.play es).books.Stores i? q?) (hp : r.phase = .paying t i) :
    ∃ j, (w.play es).store.invoice? i.id = some j ∧ j.balance.sub? i.balance = some .zero := by
  cases h with
  | queued hq =>
      rw [hq] at hp
      cases hp
  | lost _ hended =>
      rw [hended] at hp
      cases hp
  | billing _ hbills =>
      rw [hp] at hbills
      obtain ⟨_, _, _, hi, _⟩ := hbills
      exact ⟨i, hs.invoice i hi, Amount.sub?_self _⟩

/-- What comes of a run among other occurrences. -/
structure Exact (w : Works) (es : List Occurrence) (n : Nat) (o : Order) : Prop where
  /-- A run whose account exists is not aborted. -/
  unaborted : w.store.account? o.account ≠ none →
    ∀ past rest, es = past ++ .stepRun n :: rest → ¬ (w.play past).Aborts n
  /-- Once it has ended, it has filed what its order comes to by the account as it was read. -/
  charged : w.store.account? o.account ≠ none →
    ∀ r, (w.play es).runs[n]? = some r → r.phase = .ended →
      ∃ a i? q?, w.Reads es n o.account a ∧ w.Filed es n i? q? ∧ o.Charge a i? q?
  /-- A run whose account is unknown writes and announces nothing. -/
  idle : w.store.account? o.account = none → ∀ past rest, es = past ++ .stepRun n :: rest →
    ((w.play past).stepRun n).books = (w.play past).books ∧
      ((w.play past).stepRun n).published = (w.play past).published
  /-- It keeps all invoices that it has not filed itself. -/
  invoices : ∀ past rest, es = past ++ .stepRun n :: rest →
    ∀ id i, (w.play past).store.invoice? id = some i → ¬ w.Writes past n (·.invoice? id ≠ none) →
      ((w.play past).stepRun n).store.invoice? id = some i
  /-- It keeps all payments. -/
  payments : ∀ past rest, es = past ++ .stepRun n :: rest →
    ∀ id q, (w.play past).store.payment? id = some q →
      ((w.play past).stepRun n).store.payment? id = some q
  /-- What it takes from a balance leaves an amount. -/
  amounts : ∀ past rest, es = past ++ .stepRun n :: rest →
    ∀ r t i, (w.play past).runs[n]? = some r → r.phase = .paying t i →
      ∃ j balance, (w.play past).store.invoice? i.id = some j ∧
        j.balance.sub? i.balance = some balance

/-- Runs take their steps in any order, between replacements of tags, over any records. A run whose
account exists is never aborted, and once it has ended it has filed exactly what its order comes to
by the account as it was read in its first step; a run whose account is unknown writes and announces
nothing. No run changes what another one has filed, and no balance leaves the range of amounts. That
identifiers are fresh is what `unspent` says. -/
theorem charges_exact (queued : ∀ r ∈ w.runs, r.phase = .queued)
    (unspent : w.books.Unspent (w.play es).books.fresh) (run : w.runs[n]? = some r) :
    w.Exact es n r.order := by
  have hle : ∀ {past rest}, es = past ++ rest →
      (w.play past).books.fresh ≤ (w.play es).books.fresh := by
    rintro past rest rfl
    rw [play_append]
    exact fresh_le_play _ rest
  have htracked : ∀ {past rest}, es = past ++ rest → w.Tracked past n r.order :=
    fun he => tracked queued unspent (hle he) run
  have hunspent : ∀ {past rest}, es = past ++ rest →
      (w.play past).books.Unspent (w.play es).books.fresh :=
    fun he => unspent_play unspent (hle he)
  have hafter : ∀ {past rest}, es = past ++ .stepRun n :: rest →
      ((w.play past).stepRun n).books.fresh ≤ (w.play es).books.fresh := by
    rintro past rest rfl
    rw [play_append]
    exact fresh_le_play ((w.play past).stepRun n) rest
  constructor
  case unaborted =>
    intro haccount past rest he
    obtain ⟨s, i?, q?, hs, ho, hstanding, hfiled⟩ := htracked he
    exact hstanding.not_aborts hs hfiled.stores (ho ▸ haccount)
  case charged =>
    intro haccount r' hr' hended
    obtain ⟨s, i?, q?, hs, ho, hstanding, hfiled⟩ := htracked (List.append_nil es).symm
    rw [hr'] at hs
    cases hs
    cases hstanding with
    | queued hq =>
        rw [hq] at hended
        cases hended
    | lost hunknown _ => exact absurd hunknown (ho ▸ haccount)
    | @billing a _ _ hreads hbills =>
        rw [hended, ho] at hbills
        exact ⟨a, i?, q?, ho ▸ hreads, hfiled, hbills⟩
  case idle =>
    intro haccount past rest he
    obtain ⟨s, i?, q?, hs, ho, hstanding, _⟩ := htracked he
    exact hstanding.idle hs (ho ▸ haccount)
  case invoices =>
    intro past rest he
    exact ((htracked he).keeps (hunspent he) (hafter he)).1
  case payments =>
    intro past rest he
    exact ((htracked he).keeps (hunspent he) (hafter he)).2
  case amounts =>
    intro past rest he r' t i hr' hp
    obtain ⟨s, i?, q?, hs, _, hstanding, hfiled⟩ := htracked he
    rw [hr'] at hs
    cases hs
    obtain ⟨j, hj, hbalance⟩ := hstanding.no_overflow hfiled.stores hp
    exact ⟨j, _, hj, hbalance⟩

/-! ### Two runs -/

/-- Two orders of one account are to be billed, and the second comes to nothing. -/
def twofold : Works :=
  let account : Account := ⟨.numbered 0, "Acme", 0, .empty, true, .epoch⟩
  { Works.opened .epoch 20 with
    books := ⟨Store.empty.insertAccount account, 1⟩
    runs :=
      [⟨⟨.numbered 7, account.id, .numbered 8, .create, ⟨1200, by decide⟩⟩, .queued, 0⟩,
        ⟨⟨.numbered 9, account.id, .numbered 8, .cancel, .zero⟩, .queued, 0⟩] }

/-- Both runs take all their steps, and the tags are replaced between them. -/
def entangled : List Occurrence :=
  [.stepRun 0, .stepRun 1, .pass 20, .stepRun 1, .stepRun 0,
    .replaceTags (.numbered 0) ⟨true, true, true⟩,
    .audit ⟨.numbered 9, none, .none⟩ (.numbered 0) "account.tags.replace", .pass 40, .stepRun 0,
    .stepRun 1, .stepRun 0, .pass 60, .stepRun 0, .stepRun 0, .stepRun 0]

theorem twofold_unspent : twofold.books.Unspent (twofold.play entangled).books.fresh where
  supply := by decide
  invoices _ _ _ := rfl
  payments _ _ _ := rfl

theorem entangled_charges : ∃ r a i? q?, twofold.runs[0]? = some r ∧
    twofold.Reads entangled 0 r.order.account a ∧ twofold.Filed entangled 0 i? q? ∧
      r.order.Charge a i? q? := by
  have hrun : twofold.runs[0]? = some _ := rfl
  have hexact := charges_exact (by decide) twofold_unspent hrun
  obtain ⟨a, i?, q?, hreads, hfiled, hcharge⟩ :=
    hexact.charged (by rintro ⟨⟩) _ rfl (by decide)
  exact ⟨_, a, i?, q?, rfl, hreads, hfiled, hcharge⟩

end Works

end Billing.Pipeline
