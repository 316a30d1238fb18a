import Billing.Completion.Timing
import Billing.Proofs.Calendar.Succession
import Billing.Store.Records

/-!
# Local dates and the timing of effects

The date of an account is that of the whole days that have passed at its distance from universal
time. It never goes back as time goes on. Against it, effects are deferred to the latest of their
dates, or they are immediate; a deferred effect becomes immediate in time, and no effect is put off.
-/

namespace Billing

/-! ## Dates in order -/

namespace Date

variable {a b c : Date} {ds : List Date}

theorem eq_of_day_eq (h : a.day = b.day) : a = b := by
  cases a
  cases b
  cases h
  rfl

theorem le_antisymm (h : a ≤ b) (k : b ≤ a) : a = b := eq_of_day_eq (Int.le_antisymm h k)

theorem lt_of_le_of_lt (h : a ≤ b) (k : b < c) : a < c := Int.lt_of_le_of_lt h k

theorem not_lt : ¬ a < b ↔ b ≤ a := Int.not_lt

/-- A date stands among others, and none of them is later. -/
def Latest (d : Date) (ds : List Date) : Prop := d ∈ ds ∧ ∀ x ∈ ds, x ≤ d

theorem Latest.unique (ha : a.Latest ds) (hb : b.Latest ds) : a = b :=
  le_antisymm (hb.2 a ha.1) (ha.2 b hb.1)

theorem latest_cases (a b : Date) :
    latest a b = b ∧ a ≤ b ∨ latest a b = a ∧ b ≤ a := by
  unfold latest
  split
  · rename_i h
    exact Or.inl ⟨rfl, Int.le_of_lt h⟩
  · rename_i h
    exact Or.inr ⟨rfl, not_lt.mp h⟩

theorem latest_foldl (d : Date) (ds : List Date) : (ds.foldl latest d).Latest (d :: ds) := by
  induction ds generalizing d with
  | nil =>
      refine ⟨List.mem_cons_self, fun x hx => ?_⟩
      rw [List.mem_singleton.mp hx]
      exact Int.le_refl d.day
  | cons x ds ih =>
      obtain ⟨hmem, hall⟩ := ih (latest d x)
      have hle : latest d x ≤ ds.foldl latest (latest d x) := hall _ List.mem_cons_self
      have hrest : ∀ y ∈ ds, y ≤ ds.foldl latest (latest d x) :=
        fun y hy => hall y (List.mem_cons_of_mem _ hy)
      rw [List.foldl_cons]
      generalize ds.foldl latest (latest d x) = m at hmem hle hrest
      rcases latest_cases d x with ⟨he, hdx⟩ | ⟨he, hxd⟩ <;> rw [he] at hmem hle
      · refine ⟨List.mem_cons_of_mem d hmem, ?_⟩
        simp only [List.forall_mem_cons]
        exact ⟨Int.le_trans hdx hle, hle, hrest⟩
      · refine ⟨?_, ?_⟩
        · rcases List.mem_cons.mp hmem with rfl | hmem
          · exact List.mem_cons_self
          · exact List.mem_cons_of_mem _ (List.mem_cons_of_mem _ hmem)
        · simp only [List.forall_mem_cons]
          exact ⟨hle, Int.le_trans hxd hle, hrest⟩

end Date

/-! ## Timing -/

namespace EffectTiming

variable {dates others : List Date} {today later m : Date} {timing : EffectTiming}

/-- What the timing of effects with these dates is today. -/
inductive Takes (dates : List Date) (today : Date) : EffectTiming → Prop where
  | immediate (due : ∀ d ∈ dates, d ≤ today) : Takes dates today .immediate
  | deferred {m : Date} (later : ∃ d ∈ dates, today < d) (latest : m.Latest dates) :
      Takes dates today (.deferred m)

theorem latest?_eq_none_iff : latest? dates = none ↔ dates = [] := by
  cases dates <;> simp [latest?]

theorem latest_of_latest? (h : latest? dates = some m) : m.Latest dates := by
  cases dates with
  | nil => cases h
  | cons d ds =>
      cases h
      exact Date.latest_foldl d ds

/-- The latest of the later dates is the latest of all. -/
theorem takes_classify (dates : List Date) (today : Date) :
    Takes dates today (classify dates today) := by
  unfold classify
  split
  · rename_i m hm
    obtain ⟨hmem, hall⟩ := latest_of_latest? hm
    obtain ⟨hmem, hlater⟩ := List.mem_filter.mp hmem
    have hlater : today < m := of_decide_eq_true hlater
    refine .deferred ⟨m, hmem, hlater⟩ ⟨hmem, fun x hx => ?_⟩
    by_cases hxt : today < x
    · exact hall x (List.mem_filter.mpr ⟨hx, decide_eq_true hxt⟩)
    · exact Int.le_trans (Date.not_lt.mp hxt) (Int.le_of_lt hlater)
  · rename_i hm
    refine .immediate fun d hd => Date.not_lt.mp fun hdt => ?_
    have hmem : d ∈ dates.filter fun d => today < d :=
      List.mem_filter.mpr ⟨hd, decide_eq_true hdt⟩
    rw [latest?_eq_none_iff.mp hm] at hmem
    cases hmem

theorem Takes.unique {t u : EffectTiming} (h : Takes dates today t) (k : Takes dates today u) :
    t = u := by
  have hnot : (∃ d ∈ dates, today < d) → ¬ ∀ d ∈ dates, d ≤ today :=
    fun ⟨d, hd, hlt⟩ hall => Date.not_lt.mpr (hall d hd) hlt
  cases h with
  | immediate hdue =>
      cases k with
      | immediate => rfl
      | deferred hlater => exact absurd hdue (hnot hlater)
  | deferred hlater hm =>
      cases k with
      | immediate hdue => exact absurd hdue (hnot hlater)
      | deferred _ hm' => rw [hm.unique hm']

/-- Neither their order nor how often they stand there matters. -/
theorem Takes.of_members (h : Takes dates today timing) (hm : ∀ d, d ∈ dates ↔ d ∈ others) :
    Takes others today timing := by
  cases h with
  | immediate hdue => exact .immediate fun d hd => hdue d ((hm d).mpr hd)
  | deferred hlater hlatest =>
      obtain ⟨d, hd, hlt⟩ := hlater
      exact .deferred ⟨d, (hm d).mp hd, hlt⟩
        ⟨(hm _).mp hlatest.1, fun x hx => hlatest.2 x ((hm x).mpr hx)⟩

/-- On a later day the timing is the same, or it is immediate. -/
theorem Takes.on_later_day {t u : EffectTiming} (h : Takes dates today t)
    (k : Takes dates later u) (hle : today ≤ later) : u = t ∨ u = .immediate := by
  cases k with
  | immediate => exact Or.inr rfl
  | deferred hlater hm =>
      obtain ⟨d, hd, hlt⟩ := hlater
      exact Or.inl (Takes.unique (.deferred ⟨d, hd, Date.lt_of_le_of_lt hle hlt⟩ hm) h)

end EffectTiming

/-! ## Local dates -/

namespace Instant

variable {t u : Instant} {offset : Int} {d e : Date}

theorem seconds_le_of_le (h : t.le u = true) : t.seconds ≤ u.seconds := by
  simp only [le, Bool.or_eq_true, Bool.and_eq_true, decide_eq_true_eq, beq_iff_eq] at h
  omega

theorem day_of_localDate? (h : t.localDate? offset = some d) :
    d.day = (t.seconds + offset) / 86400 := Date.day_of_ofDay? h

/-- The date does not go back. -/
theorem localDate?_mono (ht : t.localDate? offset = some d) (hu : u.localDate? offset = some e)
    (h : t.le u = true) : d ≤ e := by
  show d.day ≤ e.day
  rw [day_of_localDate? ht, day_of_localDate? hu]
  have := seconds_le_of_le h
  omega

/-- In universal time there is a date at every instant. -/
theorem exists_localDate?_zero (t : Instant) : ∃ d, t.localDate? 0 = some d := by
  have := t.inRange
  unfold localDate? localDay Date.ofDay?
  rw [dif_pos (by omega)]
  exact ⟨_, rfl⟩

end Instant

/-! ## Accounts -/

namespace Account

variable {id : AccountId} {n : NewAccount} {opened t u : Instant} {a : Account} {d e : Date}

/-- The distance of a new account is the one that was asked for, and less than a day. -/
theorem offset_of_create (h : create id n opened = .ok a) :
    a.offset = n.utcOffsetMinutes * 60 ∧ -50400 ≤ n.utcOffsetMinutes * 60 ∧
      n.utcOffsetMinutes * 60 ≤ 50400 := by
  unfold create at h
  split at h
  · cases h
  · split at h
    · rename_i hrange
      cases h
      simp only [maxOffsetMinutes] at hrange
      refine ⟨?_, by omega, by omega⟩
      simp only [offset]
      rw [if_pos (by omega)]
    · cases h

/-- A date is the one of an account with this distance from universal time, in minutes. The days are
whole days of local time, of which seconds that are run on are no part. -/
structure IsDate (minutes : Int) (t : Instant) (d : Date) : Prop where
  seconds : d.day = (t.seconds + 60 * minutes) / 86400
  nanos : t.nanos < 1000000000 →
    d.day = (t.total + 60 * minutes * 1000000000) / (86400 * 1000000000)
  civil : Civil.Counted d.day d.civil
  near : ∃ u, t.localDate? 0 = some u ∧ u.day - 1 ≤ d.day ∧ d.day ≤ u.day + 1

theorem isDate_of_today? (hoffset : a.offset = n.utcOffsetMinutes * 60)
    (hbound : -50400 ≤ n.utcOffsetMinutes * 60 ∧ n.utcOffsetMinutes * 60 ≤ 50400)
    (h : a.today? t = some d) : IsDate n.utcOffsetMinutes t d := by
  have hday : d.day = (t.seconds + 60 * n.utcOffsetMinutes) / 86400 := by
    rw [Instant.day_of_localDate? h, hoffset, Int.mul_comm n.utcOffsetMinutes]
  refine ⟨hday, fun hnanos => ?_, Civil.counted_iff.mpr rfl, ?_⟩
  · rw [hday, Instant.total]
    omega
  · obtain ⟨u, hu⟩ := t.exists_localDate?_zero
    have huday := Instant.day_of_localDate? hu
    exact ⟨u, hu, by omega, by omega⟩

/-- The date of an account that can be created is that of the whole days of its local time, and it
never goes back. At each of two instants, the timing of effects is deferred to the latest of their
dates if one of them is later than the local date, and else immediate, whatever their order is and
however often they are repeated. By the second instant it is the same, or it has become
immediate. -/
theorem local_dates_exact (created : create id n opened = .ok a) (order : t.le u = true)
    (today : a.today? t = some d) (later : a.today? u = some e) (dates : List Date) :
    (a.offset = n.utcOffsetMinutes * 60 ∧ -50400 ≤ a.offset ∧ a.offset ≤ 50400) ∧
      IsDate n.utcOffsetMinutes t d ∧ IsDate n.utcOffsetMinutes u e ∧ d ≤ e ∧
        ∃ timing timing', EffectTiming.Takes dates d timing ∧ EffectTiming.Takes dates e timing' ∧
          (timing' = timing ∨ timing' = .immediate) ∧
            ∀ others, (∀ x, x ∈ others ↔ x ∈ dates) →
              EffectTiming.forAccount? others t a.offset = some timing ∧
                EffectTiming.forAccount? others u a.offset = some timing' := by
  obtain ⟨hoffset, hbound⟩ := offset_of_create created
  have hle : d ≤ e := Instant.localDate?_mono today later order
  have hd := EffectTiming.takes_classify dates d
  have he := EffectTiming.takes_classify dates e
  refine ⟨⟨hoffset, by omega⟩, isDate_of_today? hoffset hbound today,
    isDate_of_today? hoffset hbound later, hle, _, _, hd, he, hd.on_later_day he hle, ?_⟩
  intro others hsame
  have hall : ∀ {x : Instant} {day : Date}, a.today? x = some day →
      EffectTiming.forAccount? others x a.offset = some (EffectTiming.classify dates day) := by
    intro x day hx
    have htakes := (EffectTiming.takes_classify others day).of_members hsame
    rw [EffectTiming.forAccount?, show x.localDate? a.offset = some day from hx, Option.map_some,
      htakes.unique (EffectTiming.takes_classify dates day)]
  exact ⟨hall today, hall later⟩

/-- An account fourteen hours behind universal time. -/
def behind : Account := ⟨.numbered 0, "Acme", -840, .empty, true, .epoch⟩

/-- On the day before 1970 begins at its place, one of two dates is still to come, which is asked
for twice; a day later it has come. -/
theorem local_dates_behind :
    let t : Instant := ⟨-86400, 0, by decide, by decide⟩
    let dates : List Date := [⟨-1, by decide⟩, ⟨-2, by decide⟩, ⟨-1, by decide⟩]
    create (.numbered 0) ⟨"Acme", -840, .empty, true⟩ .epoch = .ok behind ∧ t.le .epoch = true ∧
      behind.today? t = some ⟨-2, by decide⟩ ∧ behind.today? .epoch = some ⟨-1, by decide⟩ ∧
        IsDate (-840) t ⟨-2, by decide⟩ ∧ IsDate (-840) .epoch ⟨-1, by decide⟩ ∧
          EffectTiming.Takes dates ⟨-2, by decide⟩ (.deferred ⟨-1, by decide⟩) ∧
            EffectTiming.Takes dates ⟨-1, by decide⟩ .immediate := by
  intro t dates
  have hcreate : create (.numbered 0) ⟨"Acme", -840, .empty, true⟩ .epoch = .ok behind := rfl
  have hbefore : behind.today? t = some ⟨-2, by decide⟩ := by decide
  have hlater : behind.today? .epoch = some ⟨-1, by decide⟩ := by decide
  have horder : t.le .epoch = true := by decide
  obtain ⟨_, ht, he, _, timing, timing', htakes, htakes', _, hall⟩ :=
    local_dates_exact hcreate horder hbefore hlater dates
  obtain ⟨hnow, hthen⟩ := hall dates fun _ => Iff.rfl
  have hdeferred : EffectTiming.forAccount? dates t behind.offset =
      some (.deferred ⟨-1, by decide⟩) := by decide
  have himmediate : EffectTiming.forAccount? dates .epoch behind.offset = some .immediate := by
    decide
  cases hdeferred.symm.trans hnow
  cases himmediate.symm.trans hthen
  exact ⟨hcreate, horder, hbefore, hlater, ht, he, htakes, htakes'⟩

end Account

end Billing
