import Billing.Proofs.Service.Verdicts

/-!
# What a run files

A run files the records that it writes. Once it has nothing left to write, all of them are in the
store, and they stay there as they are: no other run has its invoices in hand.
-/

namespace Billing

theorem Pipeline.Phase.invoice?_of_isFiled {p : Pipeline.Phase} (h : p.isFiled = true) :
    p.invoice? = none := by
  cases p with
  | announcing t i => cases h
  | paying t i => cases h
  | _ => rfl

namespace Service

open Completion (Desk)
open Pipeline (Run Works)

namespace System

variable {s : System} {a : Action} {as : List Action} {w : Works} {cs : List Submitted}
  {d : Desk Subscription} {n : Nat} {id : InvoiceId} {i : Invoice}

/-- A run has nothing left to write. -/
def HasFiled (s : System) (n : Nat) : Prop :=
  ∃ r, s.works.runs[n]? = some r ∧ r.phase.isFiled = true

theorem HasFiled.step (h : s.HasFiled n) (a : Action) : (s.step a).HasFiled n := by
  obtain ⟨r, hr, hp⟩ := h
  rcases (s.step_effect a).run hr with hr | hs
  · exact ⟨r, hr, hp⟩
  · exact ⟨_, hs.run, (Pipeline.Phase.step_of_isFiled _ hp).2⟩

theorem HasFiled.steps (h : s.HasFiled n) (as : List Action) : (s.steps as).HasFiled n := by
  induction as generalizing s with
  | nil => exact h
  | cons a as ih => exact ih (h.step a)

theorem HasFiled.books (h : s.HasFiled n) : (s.step (.stepRun n)).works.books = s.works.books := by
  obtain ⟨r, hr, hp⟩ := h
  show (s.works.stepRun n).books = s.works.books
  cases hm : s.works.mover? n with
  | none => rw [Works.stepRun_of_mover?_none hm]
  | some r' =>
      have hr' := (Works.mover?_eq_some_iff.mp hm).1
      rw [hr] at hr'
      cases hr'
      rw [Works.stepRun_of_mover? hm]
      exact (Pipeline.Phase.step_of_isFiled _ hp).1

theorem Effect.reserved (h : s.Effect a w cs d) (hr : s.works.Reserved n id) (hf : s.Supplied) :
    w.Reserved n id := by
  cases h with
  | worked _ _ hadv => exact hadv.reserved hr
  | stepped => exact hr.stepRun hf _
  | entered he => exact hr.of_eq he.fresh_le rfl
  | delivered => exact hr.of_eq (Nat.le_refl _) rfl
  | passed => exact hr.of_eq (Nat.le_refl _) rfl
  | _ => exact hr

theorem reserved_steps (hr : s.works.Reserved n id) (hf : (s.steps as).Supplied) :
    (s.steps as).works.Reserved n id := by
  induction as generalizing s with
  | nil => exact hr
  | cons a as ih =>
      have hf' : s.Supplied := hf.of_steps
      exact ih ((s.step_effect a).reserved hr hf') hf

/-- An invoice of a run that has nothing left to write stays as it is. -/
theorem Effect.invoice? (h : s.Effect a w cs d) (hs : s.Stocked) (hf : s.Supplied)
    (hr : s.works.Reserved n id) (hn : s.HasFiled n) (hi : s.store.invoice? id = some i) :
    w.store.invoice? id = some i := by
  obtain ⟨hand, he, hhand⟩ := h.booked
  refine he.invoice?_of_ne hs.works.numbered hf hi fun j hj hid => ?_
  obtain ⟨k, r, hstep, hinv⟩ := hhand j hj
  have hk := (Works.mover?_eq_some_iff.mp hstep.mover).1
  obtain ⟨r', hr', hp⟩ := hn
  cases hr.own hk hinv hid
  rw [hk] at hr'
  cases hr'
  rw [Pipeline.Phase.invoice?_of_isFiled hp] at hinv
  cases hinv

theorem invoice?_steps (hs : s.Stocked) (hf : (s.steps as).Supplied) (hr : s.works.Reserved n id)
    (hn : s.HasFiled n) (hi : s.store.invoice? id = some i) :
    (s.steps as).store.invoice? id = some i := by
  induction as generalizing s with
  | nil => exact hi
  | cons a as ih =>
      have hf' : s.Supplied := hf.of_steps
      have he := s.step_effect a
      exact ih (hs.step hf' a) hf (he.reserved hr hf') (hn.step a) (he.invoice? hs hf' hr hn hi)

/-! ## Writing -/

/-- A step of a run on the way makes something true of the store. -/
def Writes (s : System) (as : List Action) (n : Nat) (p : Store → Prop) : Prop :=
  ∃ past rest, as = past ++ .stepRun n :: rest ∧ ¬ p (s.steps past).store ∧
    p ((s.steps past).step (.stepRun n)).store

theorem Writes.of_append {p : Store → Prop} {bs : List Action} (h : s.Writes (as ++ bs) n p)
    (hn : (s.steps as).HasFiled n) : s.Writes as n p := by
  obtain ⟨past, rest, he, hnot, hp⟩ := h
  rcases split_append he.symm with ⟨more, has, _⟩ | ⟨more, rfl, _⟩
  · exact ⟨past, more, has, hnot, hp⟩
  · -- The step comes too late to write anything.
    rw [steps_append] at hnot hp
    rw [store, Works.store, (hn.steps more).books] at hp
    exact absurd hp hnot

end System

namespace Flight

variable {f : Flight} {n : Nat}

/-- All records that a run ever writes, whatever comes after the flight, are in the store at its
end, and an invoice stays as it is then. -/
structure Filed (f : Flight) (n : Nat) : Prop where
  payments : ∀ {more : List Action} {p : Payment},
    f.opened.Writes (f.upTo (f.after ++ more)) n (·.payment? p.id = some p) →
      f.final.store.payment? p.id = some p
  invoices : ∀ {more : List Action} {i : Invoice},
    f.opened.Writes (f.upTo (f.after ++ more)) n (·.invoice? i.id = some i) →
      ∃ balance, f.final.store.invoice? i.id = some { i with balance } ∧
        ((f.since (f.after ++ more)).Supplied →
          (f.since (f.after ++ more)).store.invoice? i.id = some { i with balance })

theorem written {past rest : List Action} (hf : f.final.Supplied)
    (he : f.upTo f.after = past ++ .stepRun n :: rest) :
    f.final = ((f.opened.steps past).step (.stepRun n)).steps rest ∧
      (f.opened.steps past).Stocked ∧ ((f.opened.steps past).step (.stepRun n)).Stocked ∧
        (f.opened.steps past).Supplied := by
  have hfinal : f.final = ((f.opened.steps past).step (.stepRun n)).steps rest := by
    rw [final, since, he, System.steps_append]
    rfl
  rw [hfinal] at hf
  have hsup : (f.opened.steps past).Supplied := hf.of_steps.of_step
  have hstocked := (System.Stocked.opened f.settings f.hash f.opening).steps hsup
  exact ⟨hfinal, hstocked, hstocked.step hsup _, hsup⟩

theorem filed (hn : f.final.HasFiled n) (hf : f.final.Supplied) : f.Filed n := by
  constructor
  · intro more p hw
    rw [upTo_append] at hw
    obtain ⟨past, rest, he, _, hp⟩ := hw.of_append hn
    obtain ⟨hfinal, _, hstocked, _⟩ := written hf he
    rw [hfinal] at hf ⊢
    exact (System.keeps_steps hstocked hf).payments hp
  · intro more i hw
    rw [upTo_append] at hw
    obtain ⟨past, rest, he, hnot, hi⟩ := hw.of_append hn
    obtain ⟨hfinal, hbefore, hstocked, hsup⟩ := written hf he
    have hres : ((f.opened.steps past).step (.stepRun n)).works.Reserved n i.id :=
      hbefore.works.reserved hsup hnot hi
    rw [hfinal] at hf
    have hres := System.reserved_steps hres hf
    obtain ⟨balance, hfound⟩ := (System.keeps_steps hstocked hf).invoices hi
    rw [← hfinal] at hf hres hfound
    refine ⟨balance, hfound, fun hmore => ?_⟩
    rw [since_append] at hmore ⊢
    exact System.invoice?_steps (f.stocked hf) hmore hres hn hfound

end Flight

end Service

end Billing
