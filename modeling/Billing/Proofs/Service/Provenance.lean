import Mathlib.Data.List.Nodup
import Mathlib.Data.List.Perm.Basic
import Billing.Proofs.Service.Lifecycle

/-!
# Where records come from

Whatever the service does, what it has once created stays: subscriptions as what they have become,
invoices up to their balance, payments and entries of the audit log as they are. Nothing else is
stored. So the records that are listed for an account are those that were created for it.
-/

namespace Billing

open scoped List

/-! ## What is created -/

/-- Records in the order of their creation. -/
structure Created where
  subscriptions : List Subscription
  invoices : List Invoice
  payments : List Payment
  audit : List AuditEntry

namespace Created

/-- Nothing is created. -/
def nothing : Created := ⟨[], [], [], []⟩

/-- Some records are created, and then others. -/
def andThen (c d : Created) : Created where
  subscriptions := c.subscriptions ++ d.subscriptions
  invoices := c.invoices ++ d.invoices
  payments := c.payments ++ d.payments
  audit := c.audit ++ d.audit

end Created

/-- An invoice is another one up to its balance. -/
def Invoice.SameBut (i j : Invoice) : Prop := ∃ balance, j = { i with balance }

theorem Invoice.SameBut.refl (i : Invoice) : i.SameBut i := ⟨i.balance, rfl⟩

theorem Invoice.SameBut.trans {i j k : Invoice} (h : i.SameBut j) (l : j.SameBut k) :
    i.SameBut k := by
  obtain ⟨b, rfl⟩ := h
  obtain ⟨c, rfl⟩ := l
  exact ⟨c, rfl⟩

namespace Store

/-- The records of a later store under identifiers that are unknown to this one, and the entries of
the audit log behind those of this one. -/
def since (s t : Store) : Created where
  subscriptions := Table.added (·.id) s.subscriptions t.subscriptions
  invoices := Table.added (·.id) s.invoices t.invoices
  payments := Table.added (·.id) s.payments t.payments
  audit := t.audit.drop s.audit.length

/-- A later store has all records of this one, each in its place, and behind them those that were
created since. -/
structure Extends (s t : Store) : Prop where
  subscriptions : Table.Grows Subscription.Becomes (·.id) s.subscriptions t.subscriptions
  invoices : Table.Grows Invoice.SameBut (·.id) s.invoices t.invoices
  payments : Table.Grows Eq (·.id) s.payments t.payments
  audit : s.audit <+: t.audit

end Store

/-- What was created stands in the store, and nothing else does. -/
structure Created.Stand (made : Created) (s : Store) : Prop where
  subscriptions : List.Forall₂ Subscription.Becomes made.subscriptions s.subscriptions
  invoices : List.Forall₂ Invoice.SameBut made.invoices s.invoices
  payments : made.payments = s.payments
  audit : made.audit = s.audit

theorem forall₂_trans {α : Type} {R : α → α → Prop} (htrans : ∀ a b c, R a b → R b c → R a c) :
    ∀ {xs ys zs : List α}, List.Forall₂ R xs ys → List.Forall₂ R ys zs → List.Forall₂ R xs zs
  | _, _, _, .nil, .nil => .nil
  | _, _, _, .cons h hs, .cons k ks => .cons (htrans _ _ _ h k) (forall₂_trans htrans hs ks)

theorem Store.Table.Grows.stand {α κ : Type} [DecidableEq κ] {key : α → κ} {R : α → α → Prop}
    {made rows later : List α} (hrefl : ∀ r, R r r) (htrans : ∀ a b c, R a b → R b c → R a c)
    (h : Grows R key rows later) (hmade : List.Forall₂ R made rows) :
    List.Forall₂ R (made ++ added key rows later) later := by
  obtain ⟨kept, hkept, hlater⟩ := h
  generalize added key rows later = new at hlater
  subst hlater
  have hrows : List.Forall₂ R made kept := forall₂_trans htrans hmade hkept
  exact List.rel_append hrows (List.forall₂_same.mpr fun r _ => hrefl r)

theorem Created.Stand.extend {made : Created} {s t : Store} (h : made.Stand s) (k : s.Extends t) :
    (made.andThen (s.since t)).Stand t where
  subscriptions := k.subscriptions.stand .refl (fun _ _ _ => .trans) h.subscriptions
  invoices := k.invoices.stand .refl (fun _ _ _ => .trans) h.invoices
  payments := by
    have hstand := k.payments.stand (fun _ => rfl) (fun _ _ _ => .trans)
      (List.forall₂_eq_eq_eq ▸ h.payments)
    rw [List.forall₂_eq_eq_eq] at hstand
    exact hstand
  audit := by
    obtain ⟨new, hnew⟩ := k.audit
    show made.audit ++ t.audit.drop s.audit.length = t.audit
    rw [h.audit, ← hnew, List.drop_left]

/-! ## One action -/

/-- Nothing is found under the identifier that is handed out next. -/
theorem Id.find?_next {α : Type} {k : IdKind} {key : α → Id k} {rows : List α} {n : Nat}
    (hrows : ∀ {id r}, Store.Table.find? key id rows = some r → id.HandedOut n)
    (hn : n < Id.supply) : Store.Table.find? key (.numbered n) rows = none := by
  rw [Option.eq_none_iff_forall_ne_some]
  exact fun r hr => (hrows hr).ne hn rfl

namespace Pipeline.Books.Entry

variable {b b' : Books} {hand : Option Invoice} {retagged : Option AccountId}
  (h : Entry b hand retagged b')
include h

section Numbered

variable (hn : b.Numbered) (hf : b.fresh < Id.supply)
include hn hf

theorem grows_invoices :
    Store.Table.Grows Invoice.SameBut (·.id) b.store.invoices b'.store.invoices := by
  cases h with
  | @invoice i hi =>
      exact .put_new .refl (hi ▸ Id.find?_next hn.invoices hf)
  | @paid i j p balance _ hj _ =>
      refine .put_found .refl (r := j) ?_ ⟨balance, rfl⟩
      show b.store.invoice? j.id = some j
      rw [Store.id_of_invoice? hj]
      exact hj
  | _ => exact .refl .refl _

theorem grows_payments :
    Store.Table.Grows Eq (·.id) b.store.payments b'.store.payments := by
  cases h with
  | payment hp => exact .put_new (fun _ => rfl) (hp ▸ Id.find?_next hn.payments hf)
  | paid _ _ hp => exact .put_new (fun _ => rfl) (hp ▸ Id.find?_next hn.payments hf)
  | _ => exact .refl (fun _ => rfl) _

end Numbered

theorem grows_audit : b.store.audit <+: b'.store.audit := by
  cases h with
  | audit => exact List.prefix_append _ _
  | _ => exact List.prefix_rfl

end Pipeline.Books.Entry

namespace Service.System

variable {s t : System} {made : Created}

/-- Whatever is done, all records stay, and those that are created come behind them. -/
theorem extends_step (hs : s.Stocked) (hf : s.Supplied) (a : Action) :
    s.store.Extends (s.step a).store where
  subscriptions := by
    rcases s.step_subscriptions a with hsame | ⟨i, m, r, z, _, _, hmakes, hstore⟩
    · rw [hsame]
      exact .refl .refl _
    · rw [hstore]
      rcases hmakes.becomes with hfresh | ⟨y, hy, hbecomes⟩
      · exact .put_new .refl (hfresh ▸ Id.find?_next hs.works.numbered.subscriptions hf)
      · exact .put_found .refl hy hbecomes
  invoices := by
    obtain ⟨_, he⟩ := (s.step_effect a).entry
    exact he.grows_invoices hs.works.numbered hf
  payments := by
    obtain ⟨_, he⟩ := (s.step_effect a).entry
    exact he.grows_payments hs.works.numbered hf
  audit := by
    obtain ⟨_, he⟩ := (s.step_effect a).entry
    exact he.grows_audit

/-! ## Any number of actions -/

/-- One state leads to another, by any actions in any order and by plans to shut down, and these are
the records that are created on the way. -/
inductive History (s : System) : Created → System → Prop where
  | start : History s .nothing s
  | step {made : Created} {t : System} (h : History s made t) (a : Action) :
      History s (made.andThen (t.store.since (t.step a).store)) (t.step a)
  | closeAfter {made : Created} {t : System} (h : History s made t) (delay : Nat) :
      History s made (t.closeAfter delay)

theorem History.leads (h : s.History made t) : s.Leads t := by
  induction h with
  | start => exact .refl
  | step _ a ih => exact ih.step a
  | closeAfter _ delay ih => exact ih.closeAfter delay

/-- Every state that is reached has its history. -/
theorem Leads.exists_history (h : s.Leads t) : ∃ made, s.History made t := by
  induction h with
  | refl => exact ⟨_, .start⟩
  | step _ a ih =>
      obtain ⟨made, hmade⟩ := ih
      exact ⟨_, hmade.step a⟩
  | closeAfter _ delay ih =>
      obtain ⟨made, hmade⟩ := ih
      exact ⟨made, hmade.closeAfter delay⟩

/-- In every state the store holds what has been created and nothing else. -/
theorem History.stand {settings : Config.Settings} {hash : CorrelationToken → UInt64}
    {now : Instant} (h : (System.opened settings hash now).History made t) (ht : t.Supplied) :
    made.Stand t.store := by
  induction h with
  | start => exact ⟨.nil, .nil, rfl, rfl⟩
  | step h a ih =>
      have hstocked := h.leads.stocked (.opened settings hash now) ht.of_step
      exact (ih ht.of_step).extend (extends_step hstocked ht.of_step a)
  | closeAfter _ delay ih => exact ih ht

end Service.System

/-! ## The records of an account -/

theorem Instant.le_iff {a b : Instant} : a.le b = true ↔
    a.seconds < b.seconds ∨ a.seconds = b.seconds ∧ a.nanos ≤ b.nanos := by
  simp [Instant.le]

theorem Instant.le_antisymm {a b : Instant} (h : a.le b = true) (k : b.le a = true) : a = b := by
  obtain ⟨s, n, _, _⟩ := a
  obtain ⟨s', n', _, _⟩ := b
  rw [le_iff] at h k
  simp only at h k
  obtain rfl : s = s' := by omega
  obtain rfl : n = n' := by omega
  rfl

theorem Instant.le_trans {a b c : Instant} (h : a.le b = true) (k : b.le c = true) :
    a.le c = true := by
  rw [le_iff] at h k ⊢
  omega

theorem Instant.le_total (a b : Instant) : a.le b = true ∨ b.le a = true := by
  rw [le_iff, le_iff]
  omega

namespace Scan

variable {α : Type} (o : Scan α) (createdAt : α → Instant) (p : α → Bool) (rows : List α)

/-- In whatever order the rows come, those that are wanted are shown, and each is shown once. -/
theorem sorted_perm : o.sorted createdAt p rows ~ rows.filter p :=
  (List.mergeSort_perm _ _).trans ((o.perm rows).filter p)

theorem sorted_pairwise :
    (o.sorted createdAt p rows).Pairwise fun a b => (createdAt a).le (createdAt b) = true := by
  unfold sorted
  refine List.pairwise_mergeSort (fun a b c => ?_) (fun a b => ?_) _
  · exact Instant.le_trans
  · rw [Bool.or_eq_true]
    exact Instant.le_total _ _

/-- Rows of distinct moments are shown with distinct moments. -/
theorem nodup_sorted (h : ((rows.filter p).map createdAt).Nodup) :
    ((o.sorted createdAt p rows).map createdAt).Nodup :=
  ((o.sorted_perm createdAt p rows).map createdAt).nodup_iff.mpr h

/-- Rows that come in the order of their moments stay as they come. -/
theorem sorted_of_pairwise (h : ((o.list rows).filter p).Pairwise fun a b =>
    (createdAt a).le (createdAt b) = true) :
    o.sorted createdAt p rows = (o.list rows).filter p :=
  List.mergeSort_of_pairwise h

end Scan

namespace Store

/-- A list holds these rows as they are, which are what has become of the records that were made,
in the order of the moments of their creation. -/
structure Lists {α : Type} (R : α → α → Prop) (createdAt : α → Instant)
    (made rows listed : List α) : Prop where
  current : listed ~ rows
  exact : ∃ records, records ~ made ∧ List.Forall₂ R records listed
  ordered : listed.Pairwise fun a b => (createdAt a).le (createdAt b) = true

theorem lists_sorted {α : Type} {R : α → α → Prop} {p : α → Bool} {made rows : List α}
    (o : Scan α) (createdAt : α → Instant) (h : List.Forall₂ R made rows)
    (hp : ∀ a b, R a b → p a = p b) :
    Lists R createdAt (made.filter p) (rows.filter p) (o.sorted createdAt p rows) where
  current := o.sorted_perm createdAt p rows
  exact := by
    have hfilter : List.Forall₂ R (made.filter p) (rows.filter p) :=
      List.rel_filter (R := R) (fun a b hab => Iff.of_eq (congrArg (· = true) (hp a b hab))) h
    have hcomp : Relation.Comp (List.Forall₂ R) List.Perm (made.filter p)
        (o.sorted createdAt p rows) := ⟨_, hfilter, (o.sorted_perm createdAt p rows).symm⟩
    rw [List.forall₂_comp_perm_eq_perm_comp_forall₂] at hcomp
    obtain ⟨records, hperm, hrecords⟩ := hcomp
    exact ⟨records, hperm.symm, hrecords⟩
  ordered := o.sorted_pairwise createdAt p rows

/-! ## Ties -/

/-- The same records in the same order, but for those of one moment, which may change places among
themselves. -/
structure Tied {α : Type} (createdAt : α → Instant) (l l' : List α) : Prop where
  perm : l' ~ l
  moments : l'.map createdAt = l.map createdAt

section Tied

variable {α : Type} {createdAt : α → Instant} {p : α → Bool} {l l' rows rows' : List α}

/-- Where no two records are of one moment, none changes its place. -/
theorem Tied.eq_of_nodup (h : Tied createdAt l l') (hn : (l.map createdAt).Nodup) : l' = l := by
  refine List.ext_getElem h.perm.length_eq fun n hn' hn'' => ?_
  refine List.inj_on_of_nodup_map hn (h.perm.mem_iff.mp (List.getElem_mem hn'))
    (List.getElem_mem hn'') ?_
  have hmoments : (l'.map createdAt)[n]? = (l.map createdAt)[n]? := by rw [h.moments]
  simpa [hn', hn''] using hmoments

/-- In whatever orders the rows come, only ties are broken in another way. -/
theorem tied_sorted (o o' : Scan α) (h : rows'.filter p = rows.filter p) :
    Tied createdAt (o.sorted createdAt p rows) (o'.sorted createdAt p rows') := by
  have hperm : o'.sorted createdAt p rows' ~ o.sorted createdAt p rows :=
    (o'.sorted_perm createdAt p rows').trans (h ▸ (o.sorted_perm createdAt p rows).symm)
  refine ⟨hperm, (hperm.map createdAt).eq_of_pairwise
    (fun a b _ _ => Instant.le_antisymm (a := a) (b := b)) ?_ ?_⟩
  · exact List.pairwise_map.mpr (o'.sorted_pairwise createdAt p rows')
  · exact List.pairwise_map.mpr (o.sorted_pairwise createdAt p rows)

end Tied

end Store

end Billing
