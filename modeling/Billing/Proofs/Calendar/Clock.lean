import Mathlib.Data.List.Induction
import Billing.Calendar.Clock

/-!
# Clocks that are set by hand

A clock shows the instant that it was last set to and the exact sum of its advances since, until an
advance leaves the range of instants. That advance crashes, and the clock stands still from then on.
-/

namespace Billing

namespace Instant

variable {n : Int} {t : Instant}

/-- An instant is so many nanoseconds from the start of 1970. -/
def InRange (n : Int) : Prop :=
  -8334601228800 * 1000000000 ≤ n ∧ n < 8210266876800 * 1000000000

theorem inRange_total (h : t.nanos < 1000000000) : InRange t.total := by
  have := t.inRange
  simp only [InRange, total]
  omega

theorem ofTotal?_of_inRange (h : InRange n) :
    ∃ t, ofTotal? n = some t ∧ t.total = n ∧ t.nanos < 1000000000 := by
  have hr : -8334601228800 ≤ n / 1000000000 ∧ n / 1000000000 ≤ 8210266876799 := by
    simp only [InRange] at h
    omega
  refine ⟨_, dif_pos hr, ?_, ?_⟩
  · simp only [total]
    omega
  · simp only
    omega

theorem ofTotal?_of_not_inRange (h : ¬ InRange n) : ofTotal? n = none := by
  apply dif_neg
  simp only [InRange] at h
  omega

theorem add?_of_lt (h : t.nanos < 1000000000) (n : Int) : t.add? n = ofTotal? (t.total + n) :=
  if_pos (Or.inl h)

end Instant

namespace FixedClock

variable {c : FixedClock} {start t : Instant} {n : Int} {u : Use} {us vs : List Use}

/-! ## Uses one after another -/

@[simp] theorem after_append (c : FixedClock) (us vs : List Use) :
    c.after (us ++ vs) = (c.after us).after vs := List.foldl_append

@[simp] theorem after_cons (c : FixedClock) (u : Use) (us : List Use) :
    c.after (u :: us) = (c.use u).2.after us := rfl

theorem answers_append (c : FixedClock) (us vs : List Use) :
    c.answers (us ++ vs) = c.answers us ++ (c.after us).answers vs := by
  induction us generalizing c with
  | nil => rfl
  | cons u us ih => rw [List.cons_append, answers, answers, ih, after_cons, List.cons_append]

/-! ## A broken clock -/

/-- What comes of a use of a clock that stands still. -/
def standstill (now : Instant) : Use → Answer
  | .read => .shows now
  | .set _ => .done
  | .advance _ => .done

theorem use_of_broken (h : c.broken = true) (u : Use) : c.use u = (standstill c.now u, c) := by
  cases u <;> simp [use, set, advance, standstill, h]

theorem after_of_broken (h : c.broken = true) (us : List Use) : c.after us = c := by
  induction us with
  | nil => rfl
  | cons u us ih => rw [after_cons, use_of_broken h, ih]

theorem answers_of_broken (h : c.broken = true) (us : List Use) :
    c.answers us = us.map (standstill c.now) := by
  induction us with
  | nil => rfl
  | cons u us ih => rw [answers, use_of_broken h, ih, List.map_cons]

/-! ## A clock that goes -/

theorem use_set (h : c.broken = false) : c.use (.set t) = (.done, startingAt t) := by
  simp [use, set, startingAt, h]

theorem use_advance (h : c.broken = false) :
    c.use (.advance n) =
      match c.now.add? n with
      | some t => (.done, startingAt t)
      | none => (.crashed, { c with broken := true }) := by
  cases hadd : c.now.add? n <;> simp [use, advance, startingAt, h, hadd]

/-- A use breaks a clock if it crashes. -/
theorem broken_use (h : c.broken = false) :
    (c.use u).2.broken = true ↔ (c.use u).1 = .crashed := by
  cases u with
  | set t => simp [use_set h, startingAt]
  | advance n =>
      rw [use_advance h]
      cases c.now.add? n <;> simp [startingAt]
  | read => simp [use, h]

theorem now_of_crashed (h : (c.use u).1 = .crashed) : (c.use u).2.now = c.now := by
  cases hb : c.broken with
  | true => rw [use_of_broken hb]
  | false =>
      cases u with
      | set t => simp [use_set hb] at h
      | advance n =>
          rw [use_advance hb] at h ⊢
          cases hadd : c.now.add? n with
          | none => rfl
          | some t => simp [hadd] at h
      | read => simp [use] at h

theorem broken_of_crashed (h : (c.use u).1 = .crashed) : (c.use u).2.broken = true := by
  cases hb : c.broken with
  | true => rw [use_of_broken hb]; exact hb
  | false => exact (broken_use hb).mpr h

theorem broken_after_iff (us : List Use) :
    ((startingAt start).after us).broken = true ↔ .crashed ∈ (startingAt start).answers us := by
  have hgeneral : ∀ c : FixedClock, c.broken = false →
      ((c.after us).broken = true ↔ .crashed ∈ c.answers us) := by
    induction us with
    | nil => simp +contextual [after, answers]
    | cons u us ih =>
        intro c hc
        rw [after_cons, answers, List.mem_cons, eq_comm (a := Answer.crashed), ← broken_use hc]
        cases hb : (c.use u).2.broken with
        | true => simp [after_of_broken hb, hb]
        | false => simp [ih _ hb]
  exact hgeneral _ rfl

/-! ## Exact time -/

/-- The instant that a clock was set to last, and the nanoseconds that it has been advanced by
since. -/
structure Course where
  base : Instant
  moved : Int

namespace Course

/-- The course after one more use. -/
def use (r : Course) : Use → Course
  | .set t => ⟨t, 0⟩
  | .advance nanos => ⟨r.base, r.moved + nanos⟩
  | .read => r

/-- The course of a clock that starts at an instant. -/
def of (start : Instant) (us : List Use) : Course := us.foldl use ⟨start, 0⟩

/-- The sum of all of it, in nanoseconds from the start of 1970. -/
def total (r : Course) : Int := r.base.total + r.moved

end Course

/-- A clock that goes, and was not set to a leap second, shows its course exactly. -/
def Follows (c : FixedClock) (r : Course) : Prop :=
  c.broken = false → r.base.nanos < 1000000000 →
    c.now.total = r.total ∧ c.now.nanos < 1000000000

theorem follows_startingAt (start : Instant) : (startingAt start).Follows ⟨start, 0⟩ :=
  fun _ h => ⟨(Int.add_zero _).symm, h⟩

theorem Follows.use {r : Course} (h : c.Follows r) (u : Use) : (c.use u).2.Follows (r.use u) := by
  intro hb hbase
  have hgoes : c.broken = false := by
    rw [Bool.eq_false_iff]
    intro hc
    rw [use_of_broken hc, hc] at hb
    cases hb
  cases u with
  | set t =>
      rw [use_set hgoes]
      exact ⟨(Int.add_zero _).symm, hbase⟩
  | advance n =>
      obtain ⟨htotal, hnanos⟩ := h hgoes hbase
      rw [use_advance hgoes, Instant.add?_of_lt hnanos] at hb ⊢
      by_cases hr : Instant.InRange (c.now.total + n)
      · obtain ⟨t, ht, hsum, hlt⟩ := Instant.ofTotal?_of_inRange hr
        rw [ht]
        refine ⟨?_, hlt⟩
        calc t.total = r.base.total + r.moved + n := by rw [hsum, htotal, Course.total]
          _ = r.base.total + (r.moved + n) := Int.add_assoc ..
      · rw [Instant.ofTotal?_of_not_inRange hr] at hb
        cases hb
  | read => exact h hgoes hbase

theorem Follows.after {r : Course} (h : c.Follows r) (us : List Use) :
    (c.after us).Follows (us.foldl Course.use r) := by
  induction us generalizing c r with
  | nil => exact h
  | cons u us ih => exact ih (h.use u)

/-- An advance crashes if and only if it leaves the range of instants. -/
theorem crashes_iff (h : c.broken = false) (hnanos : c.now.nanos < 1000000000) :
    (c.use (.advance n)).1 = .crashed ↔ ¬ Instant.InRange (c.now.total + n) := by
  rw [use_advance h, Instant.add?_of_lt hnanos]
  by_cases hr : Instant.InRange (c.now.total + n)
  · obtain ⟨t, ht, _⟩ := Instant.ofTotal?_of_inRange hr
    simp [ht, hr]
  · simp [Instant.ofTotal?_of_not_inRange hr, hr]

theorem nanos_use (h : c.now.nanos < 1000000000) (hu : ∀ t, u = .set t → t.nanos < 1000000000) :
    (c.use u).2.now.nanos < 1000000000 := by
  cases hb : c.broken with
  | true => rwa [use_of_broken hb]
  | false =>
      cases u with
      | set t => simpa [use_set hb, startingAt] using hu t rfl
      | advance n =>
          rw [use_advance hb, Instant.add?_of_lt h]
          by_cases hr : Instant.InRange (c.now.total + n)
          · obtain ⟨t, ht, _, hlt⟩ := Instant.ofTotal?_of_inRange hr
            simpa [ht, startingAt] using hlt
          · simpa [Instant.ofTotal?_of_not_inRange hr] using h
      | read => exact h

theorem nanos_after (h : c.now.nanos < 1000000000)
    (hsets : ∀ t, Use.set t ∈ us → t.nanos < 1000000000) :
    (c.after us).now.nanos < 1000000000 := by
  induction us generalizing c with
  | nil => exact h
  | cons u us ih =>
      rw [after_cons]
      refine ih (nanos_use h ?_) fun t ht => hsets t (List.mem_cons_of_mem _ ht)
      rintro t rfl
      exact hsets t List.mem_cons_self

/-! ## What a clock shows -/

/-- The clock is set to no leap second. -/
def Plain (start : Instant) (us : List Use) : Prop :=
  ∀ t, t = start ∨ .set t ∈ us → t.nanos < 1000000000

/-- No advance has left the range of instants. -/
def Within (start : Instant) (us : List Use) : Prop :=
  ∀ front n rest, us = front ++ .advance n :: rest →
    Instant.InRange (Course.of start (front ++ [.advance n])).total

theorem Plain.of_append (h : Plain start (us ++ vs)) : Plain start us :=
  fun t ht => h t (ht.imp_right (List.mem_append_left vs))

theorem Within.of_append (h : Within start (us ++ vs)) : Within start us := by
  rintro front n rest rfl
  exact h front n (rest ++ vs) (by simp)

theorem Course.base_of (start : Instant) (us : List Use) :
    (Course.of start us).base = start ∨ .set (Course.of start us).base ∈ us := by
  have hgeneral : ∀ r : Course,
      (us.foldl Course.use r).base = r.base ∨ .set (us.foldl Course.use r).base ∈ us := by
    induction us with
    | nil => exact fun r => Or.inl rfl
    | cons u us ih =>
        intro r
        rw [List.foldl_cons]
        rcases ih (r.use u) with h | h
        · cases u with
          | set t => exact Or.inr (h ▸ List.mem_cons_self)
          | advance n => exact Or.inl h
          | read => exact Or.inl h
        · exact Or.inr (List.mem_cons_of_mem u h)
  exact hgeneral ⟨start, 0⟩

theorem Course.total_of_advance (start : Instant) (us : List Use) (n : Int) :
    (Course.of start (us ++ [.advance n])).total = (Course.of start us).total + n := by
  rw [Course.of, List.foldl_append]
  exact (Int.add_assoc ..).symm

/-- A clock that goes shows its course. -/
theorem Plain.total_after (h : Plain start us)
    (hgoes : ((startingAt start).after us).broken = false) :
    ((startingAt start).after us).now.total = (Course.of start us).total ∧
      ((startingAt start).after us).now.nanos < 1000000000 :=
  (follows_startingAt start).after us hgoes (h _ (Course.base_of start us))

theorem Plain.crashed_iff (h : Plain start us)
    (hgoes : ((startingAt start).after us).broken = false) (n : Int) :
    (((startingAt start).after us).use (.advance n)).1 = .crashed ↔
      ¬ Instant.InRange (Course.of start (us ++ [.advance n])).total := by
  obtain ⟨htotal, hnanos⟩ := h.total_after hgoes
  rw [crashes_iff hgoes hnanos, Course.total_of_advance, htotal]

theorem Plain.goes (h : Plain start us) (hw : Within start us) :
    ((startingAt start).after us).broken = false := by
  induction us using List.reverseRecOn with
  | nil => rfl
  | append_singleton us u ih =>
      have hgoes := ih h.of_append hw.of_append
      rw [after_append, after_cons, Bool.eq_false_iff]
      intro hb
      have hcrash := (broken_use hgoes).mp hb
      cases u with
      | set t => cases hcrash
      | advance n => exact (h.of_append.crashed_iff hgoes n).mp hcrash (hw us n [] rfl)
      | read => cases hcrash

/-- After an advance that crashes the clock stands where it stood before, and nothing crashes. -/
def StandsStill (start : Instant) (us : List Use) : Prop :=
  ∀ front n rest, us = front ++ .advance n :: rest →
    (((startingAt start).after front).use (.advance n)).1 = .crashed →
      ((startingAt start).after us).now = ((startingAt start).after front).now ∧
        (startingAt start).answers us = (startingAt start).answers front ++
          .crashed :: rest.map (standstill ((startingAt start).after front).now)

theorem standsStill (start : Instant) (us : List Use) : StandsStill start us := by
  intro front n rest hus hcrash
  have hnow := now_of_crashed hcrash
  have hbroken := broken_of_crashed hcrash
  subst hus
  constructor
  · rw [after_append, after_cons, after_of_broken hbroken, hnow]
  · rw [answers_append, answers, hcrash, answers_of_broken hbroken, hnow]

/-- How a clock keeps time through some uses. -/
structure KeepsTime (start : Instant) (us : List Use) : Prop where
  /-- As long as no advance has left the range of instants, none has crashed, and the clock shows
  the exact sum. -/
  exact : ∀ front rest, us = front ++ rest → Within start front →
    .crashed ∉ (startingAt start).answers front ∧
      ((startingAt start).after front).now.total = (Course.of start front).total
  /-- The first advance to leave the range crashes. -/
  crashes : ∀ front n rest, us = front ++ .advance n :: rest → Within start front →
    ¬ Instant.InRange (Course.of start (front ++ [.advance n])).total →
      (((startingAt start).after front).use (.advance n)).1 = .crashed
  /-- In range or not, what the clock shows is an instant, and no leap second. -/
  representable : ∀ front rest, us = front ++ rest →
    ((startingAt start).after front).now.nanos < 1000000000 ∧
      Instant.InRange ((startingAt start).after front).now.total

theorem Plain.keepsTime (h : Plain start us) : KeepsTime start us where
  exact front rest hus hw := by
    subst hus
    have hgoes := h.of_append.goes hw
    rw [← broken_after_iff, Bool.not_eq_true]
    exact ⟨hgoes, (h.of_append.total_after hgoes).1⟩
  crashes front n rest hus hw hout := by
    subst hus
    exact (h.of_append.crashed_iff (h.of_append.goes hw) n).mpr hout
  representable front rest hus := by
    subst hus
    have hfront : Plain start front := h.of_append
    have hnanos := nanos_after (c := startingAt start) (hfront start (Or.inl rfl))
      fun t ht => hfront t (Or.inr ht)
    exact ⟨hnanos, Instant.inRange_total hnanos⟩

/-- Whatever a clock is set to, it stands still after an advance that crashes, and nothing that is
done with it crashes any more. If it is set to no leap second, it shows the instant that it was set
to last and the exact sum of its advances since, and what crashes is the first advance that leaves
the range of instants. -/
theorem keeps_time (start : Instant) (us : List Use) :
    StandsStill start us ∧ (Plain start us → KeepsTime start us) :=
  ⟨standsStill start us, Plain.keepsTime⟩

/-- Back by a nanosecond, and then beyond all instants. -/
def excursion : List Use :=
  [.advance (-1), .read, .advance 9223372036854775808000000000, .set .epoch, .read]

theorem plain_excursion : Plain .epoch excursion := by
  rintro t (rfl | ht)
  · decide
  · simp only [excursion, List.mem_cons, List.not_mem_nil, reduceCtorEq, or_false, false_or,
      Use.set.injEq] at ht
    rw [ht]
    decide

theorem excursion_keeps_time :
    Plain .epoch excursion ∧ KeepsTime .epoch excursion ∧ StandsStill .epoch excursion :=
  ⟨plain_excursion, (keeps_time .epoch excursion).2 plain_excursion,
    (keeps_time .epoch excursion).1⟩

/-- Half a second into the leap second at the end of 2016. -/
def leapSecond : Instant := ⟨1483228799, 1500000000, by decide, by decide⟩

/-- A clock that is set to a leap second shows it, and an advance that leads out of it falls short
of the sum by a second. -/
theorem leap_second_lost :
    leapSecond.nanos = 1500000000 ∧
      (startingAt leapSecond).answers [.read, .advance 600000000, .read] =
        [.shows leapSecond, .done, .shows ⟨1483228800, 100000000, by decide, by decide⟩] ∧
      (Course.of leapSecond [.read, .advance 600000000, .read]).total =
        1483228801100000000 := by
  decide

/-- The last nanosecond that there is: one back, two on, and the clock is broken. -/
example : (startingAt ⟨8210266876799, 999999999, by decide, by decide⟩).answers
    [.advance (-1), .advance 2, .set .epoch, .advance 0, .read] =
      [.done, .crashed, .done, .done, .shows ⟨8210266876799, 999999998, by decide, by decide⟩] := by
  decide

end FixedClock

end Billing
