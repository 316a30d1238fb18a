import Billing.Proofs.Completion.Answers

/-!
# What happens when

A run of a desk as a chronicle of what happens at which time. Of all this, a call with a waiter is
told its interruptions and the events that settle for its waiter, and nothing else.
-/

namespace Billing.Completion

variable {α : Type} {ms ns : List (Move α)} {m : Move α} {now time i : Nat} {x : Happening α}
  {w : Waiter}

/-! ## Chronicles -/

/-- What happens in the course of moves, with the times. -/
def chronicle (now : Nat) : List (Move α) → List (Nat × Happening α)
  | [] => []
  | .happening x :: ms => (now, x) :: chronicle now ms
  | .pass moment :: ms => chronicle (max now moment) ms

/-- The time after moves in order. -/
def timeAfter (now : Nat) (ms : List (Move α)) : Nat := ms.foldl Move.timeFrom now

theorem chronicle_append :
    chronicle now (ms ++ ns) = chronicle now ms ++ chronicle (timeAfter now ms) ns := by
  induction ms generalizing now with
  | nil => rfl
  | cons m ms ih =>
      cases m with
      | happening x => exact congrArg ((now, x) :: ·) ih
      | pass moment => exact ih

theorem le_timeAfter : now ≤ timeAfter now ms := by
  induction ms generalizing now with
  | nil => exact Nat.le_refl _
  | cons m ms ih =>
      refine Nat.le_trans ?_ ih
      cases m with
      | happening x => exact Nat.le_refl _
      | pass moment => exact Nat.le_max_left _ _

theorem le_of_mem_chronicle (h : (time, x) ∈ chronicle now ms) : now ≤ time := by
  induction ms generalizing now with
  | nil => cases h
  | cons m ms ih =>
      cases m with
      | happening y =>
          rcases List.mem_cons.mp h with he | h
          · cases he
            exact Nat.le_refl _
          · exact ih h
      | pass moment => exact Nat.le_trans (Nat.le_max_left _ _) (ih h)

theorem Desk.now_run (d : Desk α) (ms : List (Move α)) : (d.run ms).now = timeAfter d.now ms := by
  induction ms generalizing d with
  | nil => rfl
  | cons m ms ih =>
      refine (ih (d.move m)).trans (congrArg (timeAfter · ms) ?_)
      cases m with
      | happening x => exact d.now_step x
      | pass moment => exact d.now_advance moment

/-! ## Signals -/

/-- What can be told to a call that waits. -/
inductive Signal where
  | interruption
  /-- The billing has settled. -/
  | settlement
  deriving DecidableEq

/-- What a happening tells a call with a waiter. -/
def Happening.signal? (i : Nat) (w : Waiter) : Happening α → Option Signal
  | .interrupt j => if j = i then some .interruption else none
  | .event t e => if t = w.token ∧ settles w.tags e = true then some .settlement else none
  | _ => none

/-- A call looks around: on its own, or because its command has come to its end. -/
def Happening.looks (i : Nat) : Happening α → Bool
  | .poll j => j = i
  | .conclude j _ => j = i
  | _ => false

/-- What a call with a waiter is told in the course of what happens, with the times. -/
def signals (i : Nat) (w : Waiter) (xs : List (Nat × Happening α)) : List (Nat × Signal) :=
  xs.filterMap fun x => (x.2.signal? i w).map (x.1, ·)

/-- When a signal comes for the first time. -/
def firstTime? (s : Signal) (ss : List (Nat × Signal)) : Option Nat :=
  (ss.find? fun x => x.2 = s).map (·.1)

/-- Whatever is told to a call at some moment has been told when it looks around at that moment. -/
def Seen (i : Nat) (w : Waiter) (xs : List (Nat × Happening α)) : Prop :=
  xs.Pairwise fun a b => a.2.looks i = true → (b.2.signal? i w).isSome = true → a.1 < b.1

variable {s : Signal} {xs ys : List (Nat × Happening α)} {ss : List (Nat × Signal)}

theorem mem_of_firstTime? (h : firstTime? s ss = some time) : (time, s) ∈ ss := by
  obtain ⟨⟨t, s'⟩, hfind, rfl⟩ := Option.map_eq_some_iff.mp h
  have hs : s' = s := by simpa using List.find?_some hfind
  subst hs
  exact List.mem_of_find?_eq_some hfind

theorem mem_signals :
    (time, s) ∈ signals i w xs ↔ ∃ x, (time, x) ∈ xs ∧ x.signal? i w = some s := by
  unfold signals
  rw [List.mem_filterMap]
  constructor
  · rintro ⟨⟨t, x⟩, hx, hs⟩
    obtain ⟨s', hs', he⟩ := Option.map_eq_some_iff.mp hs
    cases he
    exact ⟨x, hx, hs'⟩
  · rintro ⟨x, hx, hs⟩
    exact ⟨(time, x), hx, by simp [hs]⟩

theorem le_of_firstTime? (h : firstTime? s (signals i w (chronicle now ms)) = some time) :
    now ≤ time := by
  obtain ⟨x, hx, _⟩ := mem_signals.mp (mem_of_firstTime? h)
  exact le_of_mem_chronicle hx

/-- Once a call has looked around at some moment, nothing more is told to it at that moment. -/
theorem Seen.lt_of_firstTime? (h : Seen i w ((now, x) :: xs)) (hx : x.looks i = true)
    (ht : firstTime? s (signals i w xs) = some time) : now < time := by
  obtain ⟨y, hy, hs⟩ := mem_signals.mp (mem_of_firstTime? ht)
  exact (List.pairwise_cons.mp h).1 _ hy hx (by rw [hs]; rfl)

theorem Seen.tail {a : Nat × Happening α} (h : Seen i w (a :: xs)) : Seen i w xs :=
  (List.pairwise_cons.mp h).2

theorem Seen.right (h : Seen i w (xs ++ ys)) : Seen i w ys :=
  (List.pairwise_append.mp h).2.1

/-! ## Flags -/

/-- When something is first known that is known now, or that is told later. -/
def known? (flag : Bool) (now : Nat) (later : Option Nat) : Option Nat :=
  if flag then some now else later

/-- What a happening tells is known from then on. -/
theorem known?_signals {flag : Bool} :
    known? (flag || x.signal? i w == some s) now (firstTime? s (signals i w xs)) =
      known? flag now (firstTime? s (signals i w ((now, x) :: xs))) := by
  cases flag with
  | true => rfl
  | false =>
      unfold known? signals firstTime?
      rw [List.filterMap_cons]
      cases hx : x.signal? i w with
      | none => simp
      | some s' =>
          by_cases hs : s' = s
          · simp [hs]
          · simp [hs]

theorem firstTime?_preface {flag : Bool} :
    firstTime? s ((if flag then [(now, .interruption)] else []) ++ ss) =
      known? (flag && s = .interruption) now (firstTime? s ss) := by
  cases flag <;> cases s <;> simp [firstTime?, known?]

end Billing.Completion
