import Billing.Calendar.Rfc3339
import Billing.Proofs.Calendar.Civil
import Billing.Proofs.Text.Digits

/-!
# Timestamps are read back

Every date and every instant is read back from what it is written as: years of any sign and length,
leap seconds, and fractions of every length.
-/

namespace Billing.Calendar

open Text

variable {ds rest : List Char} {n width : Nat}

/-! ## Numbers -/

theorem readDigits?_numeral (width : Option Nat) (h : Numeral ds n) (hs : Stops rest)
    (hw : ∀ w, width = some w → ds.length ≤ w) :
    readDigits? width (ds ++ rest) = some (n, rest) := by
  have hread : (if ds.isEmpty then none else
      some (ds.foldl (fun n c => 10 * n + (c.toNat - '0'.toNat)) 0, (ds ++ rest).drop ds.length)) =
      some (n, rest) := by
    rw [if_neg (by simp [h.nonempty]), List.drop_left, ← Nat.ofDigitChars_eq_foldl, h.value]
  unfold readDigits?
  rw [h.takeWhile_append hs]
  cases width with
  | none => exact hread
  | some w =>
      simp only [List.take_of_length_le (hw w rfl)]
      exact hread

theorem readNumber?_padded (width n : Nat) (hn : n < 10 ^ width) (hw : 0 < width) (hs : Stops rest) :
    readNumber? width ((padded width n).toList ++ rest) = some (n, rest) := by
  have h := numeral_padded width n
  rw [readNumber?, h.dropBlanks_append]
  exact readDigits?_numeral (some width) h hs fun w heq => by
    cases heq
    exact (length_padded hn hw).le

theorem readMark?_mark (mark : Char) (h : isBlank mark = false) :
    readMark? mark (mark :: rest) = some rest := by
  simp [readMark?, dropBlanks, h]

/-! ## Dates -/

theorem readYear?_numeral (h : Numeral ds n) (hs : Stops rest) (hw : ds.length ≤ 4) :
    readYear? (ds ++ rest) = some ((n : Int), rest) := by
  have hread := readDigits?_numeral (some 4) h hs fun w heq => by
    cases heq
    exact hw
  unfold readYear?
  rw [h.dropBlanks_append]
  split
  · rename_i heq
    exact absurd heq (h.append_ne_cons rfl _)
  · rename_i heq
    exact absurd heq (h.append_ne_cons rfl _)
  · rw [hread]
    rfl

theorem readYear?_yearText (y : Int) (hs : Stops rest) :
    readYear? ((Civil.yearText y).toList ++ rest) = some (y, rest) := by
  unfold Civil.yearText
  split
  · rename_i hy
    have hlen : (padded 4 y.toNat).toList.length ≤ 4 := (length_padded (by omega) (by decide)).le
    rw [readYear?_numeral (numeral_padded 4 y.toNat) hs hlen, Int.toNat_of_nonneg hy.1]
  · -- Only a year with a sign may have more than four digits.
    have hread := readDigits?_numeral none (numeral_padded 4 y.natAbs) hs
      fun w heq => by cases heq
    rw [String.toList_append]
    split
    · rename_i hneg
      have hminus : dropBlanks ("-".toList ++ (padded 4 y.natAbs).toList ++ rest) =
          '-' :: ((padded 4 y.natAbs).toList ++ rest) := rfl
      rw [readYear?, hminus]
      simp only [hread, Option.map_some, Int.ofNat_natAbs_of_nonpos (Int.le_of_lt hneg), Int.neg_neg]
    · have hplus : dropBlanks ("+".toList ++ (padded 4 y.natAbs).toList ++ rest) =
          '+' :: ((padded 4 y.natAbs).toList ++ rest) := rfl
      have habs : (y.natAbs : Int) = y := by omega
      rw [readYear?, hplus]
      simp only [hread, Option.map_some, habs]

/-- A date is read back if its month and its day can be written with two digits. -/
theorem readCivil?_text {c : Civil} (hm : 0 ≤ c.month ∧ c.month < 100)
    (hd : 0 ≤ c.day ∧ c.day < 100) (hs : Stops rest) :
    readCivil? (c.text.toList ++ rest) = some (c, rest) := by
  have htext : c.text.toList ++ rest = (Civil.yearText c.year).toList ++
      '-' :: ((padded 2 c.month.toNat).toList ++ '-' :: ((padded 2 c.day.toNat).toList ++ rest)) := by
    simp [Civil.text]
  have hdash (cs : List Char) : Stops ('-' :: cs) := by simp [Stops]
  rw [htext]
  simp only [readCivil?, readYear?_yearText _ (hdash _), readMark?_mark '-' rfl,
    readNumber?_padded 2 c.month.toNat (by omega) (by decide) (hdash _),
    readNumber?_padded 2 c.day.toNat (by omega) (by decide) hs, Option.bind_eq_bind,
    Option.bind_some]
  simp only [Int.toNat_of_nonneg hm.1, Int.toNat_of_nonneg hd.1]

theorem bounds_of_valid {c : Civil} (h : c.valid = true) :
    (0 ≤ c.month ∧ c.month < 100) ∧ 0 ≤ c.day ∧ c.day < 100 := by
  obtain ⟨hlow, hhigh, hfirst, hlast⟩ := of_decide_eq_true h
  have hdays : Civil.daysInMonth c.year c.month ≤ 31 := by
    unfold Civil.daysInMonth
    split
    · split <;> decide
    · split <;> decide
  omega

/-! ## Times of day -/

theorem readFraction?_padded (hw : 0 < width ∧ width ≤ 9) (hn : n < 10 ^ width) (hs : Stops rest) :
    readFraction? ('.' :: ((padded width n).toList ++ rest)) = some (n * 10 ^ (9 - width), rest) := by
  have hlen := length_padded hn hw.1
  have hread := readDigits?_numeral (some 9) (numeral_padded width n) hs fun w heq => by
    cases heq
    exact hlen.trans_le hw.2
  simp only [readFraction?, hread, Option.map_some, hs.dropWhile, List.length_append, hlen,
    Nat.add_sub_cancel]
  rfl

theorem stops_fractionText (nanos : Nat) (hs : Stops rest) :
    Stops ((Instant.fractionText nanos).toList ++ rest) := by
  unfold Instant.fractionText
  split
  · exact hs
  · split
    · simp [Stops]
    · split <;> simp [Stops]

theorem readFraction?_fractionText {nanos : Nat} (hn : nanos < 1000000000) (hs : Stops rest)
    (hdot : ∀ cs, rest ≠ '.' :: cs) :
    readFraction? ((Instant.fractionText nanos).toList ++ rest) = some (nanos, rest) := by
  have hpoint (width n : Nat) : ("." ++ padded width n).toList ++ rest =
      '.' :: ((padded width n).toList ++ rest) := by simp
  unfold Instant.fractionText
  split
  · -- No fraction is written, and what follows begins with no point.
    rename_i hzero
    subst hzero
    unfold readFraction?
    split
    · rename_i heq
      exact absurd heq (hdot _)
    · rfl
  · split
    · rw [hpoint, readFraction?_padded (by decide) (by omega) hs]
      simp only [Option.some.injEq, Prod.mk.injEq, and_true]
      omega
    · split
      · rw [hpoint, readFraction?_padded (by decide) (by omega) hs]
        simp only [Option.some.injEq, Prod.mk.injEq, and_true]
        omega
      · rw [hpoint, readFraction?_padded (by decide) (by omega) hs]
        simp

end Billing.Calendar

namespace Billing

open Text Calendar

/-! ## Instants -/

/-- What is read from the written form of an instant. -/
def Instant.reading (t : Instant) : Reading :=
  let second := (t.seconds % 86400).toNat
  { civil := .ofDayNumber (t.seconds / 86400)
    hour := second / 3600
    minute := second / 60 % 60
    second := second % 60 + if t.nanos < 1000000000 then 0 else 1
    nanos := if t.nanos < 1000000000 then t.nanos else t.nanos - 1000000000
    offset := 0 }

theorem Instant.clockText_eq (t : Instant) :
    t.clockText = t.reading.civil.text ++ "T" ++ padded 2 t.reading.hour ++ ":" ++
      padded 2 t.reading.minute ++ ":" ++ padded 2 t.reading.second ++
      fractionText t.reading.nanos := by
  by_cases hn : t.nanos < 1000000000 <;> simp [clockText, reading, hn]

theorem Instant.reading_bounds (t : Instant) :
    t.reading.hour ≤ 23 ∧ t.reading.minute ≤ 59 ∧ t.reading.second ≤ 60 ∧
      t.reading.nanos < 1000000000 := by
  have hn := t.nanos_lt
  simp only [reading]
  refine ⟨by omega, by omega, ?_, ?_⟩
  · split <;> omega
  · split <;> omega

theorem Instant.readTimestamp?_clockText (t : Instant) {rest after : List Char} (hs : Stops rest)
    (hdot : ∀ cs, rest ≠ '.' :: cs) (hoff : readOffset? (dropBlanks rest) = some (0, after)) :
    readTimestamp? (t.clockText.toList ++ rest) = some (t.reading, after) := by
  obtain ⟨hhour, hminute, hsecond, hnanos⟩ := t.reading_bounds
  obtain ⟨hm, hd⟩ := bounds_of_valid (Civil.valid_ofDayNumber (t.seconds / 86400))
  have htext : t.clockText.toList ++ rest = t.reading.civil.text.toList ++
      'T' :: ((padded 2 t.reading.hour).toList ++ ':' :: ((padded 2 t.reading.minute).toList ++
        ':' :: ((padded 2 t.reading.second).toList ++
          ((fractionText t.reading.nanos).toList ++ rest)))) := by
    simp [t.clockText_eq]
  have hcivil (cs : List Char) : readCivil? (t.reading.civil.text.toList ++ 'T' :: cs) =
      some (t.reading.civil, 'T' :: cs) := readCivil?_text hm hd (by simp [Stops])
  have hnumber {n : Nat} (hn : n ≤ 60) {cs : List Char} (hcs : Stops cs) :
      readNumber? 2 ((padded 2 n).toList ++ cs) = some (n, cs) :=
    readNumber?_padded 2 n (by omega) (by decide) hcs
  have hcolon (cs : List Char) : Stops (':' :: cs) := by simp [Stops]
  have hseparator (cs : List Char) : readSeparator? ('T' :: cs) = some cs := rfl
  rw [htext]
  simp only [readTimestamp?, hcivil, hseparator, hnumber (hhour.trans (by decide)) (hcolon _),
    hnumber (hminute.trans (by decide)) (hcolon _), readMark?_mark ':' rfl,
    hnumber hsecond (stops_fractionText _ hs), readFraction?_fractionText hnanos hs hdot, hoff,
    Option.bind_eq_bind, Option.bind_some]
  rfl

theorem Date.ofCivil?_ofDayNumber (n : Int) : ofCivil? (.ofDayNumber n) = ofDay? n := by
  rw [ofCivil?, if_pos (Civil.valid_ofDayNumber n), Civil.dayNumber_ofDayNumber]

theorem Date.parse?_text (d : Date) : parse? d.text = some d := by
  obtain ⟨hm, hd⟩ := bounds_of_valid (Civil.valid_ofDayNumber d.day)
  have hread : readCivil? ((Civil.ofDayNumber d.day).text.toList ++ []) = _ :=
    readCivil?_text hm hd (by simp [Stops])
  rw [List.append_nil] at hread
  simp only [parse?, text, civil, hread, List.all_nil, if_true, ofCivil?_ofDayNumber, ofDay?_day]

theorem Instant.ofParts?_eq_some (t : Instant) {seconds : Int} {nanos : Nat}
    (hs : seconds = t.seconds) (hn : nanos = t.nanos) : ofParts? seconds nanos = some t := by
  subst hs hn
  rw [ofParts?, dif_pos t.inRange, dif_pos t.nanos_lt]

/-- The instant of what is read is the instant that was written. -/
theorem Instant.instant?_reading (t : Instant) : t.reading.instant? = some t := by
  obtain ⟨hhour, hminute, hsecond, -⟩ := t.reading_bounds
  have hoffset : -86400 < t.reading.offset ∧ t.reading.offset < 86400 := by
    rw [show t.reading.offset = 0 from rfl]
    decide
  have hrange := t.inRange
  have hday : -96465292 ≤ t.seconds / 86400 ∧ t.seconds / 86400 ≤ 95026236 := by omega
  have hdate : Date.ofCivil? t.reading.civil = some ⟨t.seconds / 86400, hday⟩ := by
    rw [reading, Date.ofCivil?_ofDayNumber, Date.ofDay?, dif_pos hday]
  rw [Reading.instant?, if_pos ⟨hhour, hminute, hsecond, hoffset⟩, hdate]
  by_cases hleap : t.nanos < 1000000000
  · have hlast : t.reading.second ≠ 60 := by
      simp only [reading, hleap, if_true]
      omega
    simp only [if_neg hlast]
    refine t.ofParts?_eq_some ?_ ?_
    · simp only [reading, hleap, if_true]
      omega
    · simp only [reading, hleap, if_true]
  · -- A leap second: the last second of a minute, read as second 60.
    have hend := t.nanos_lt.resolve_left hleap
    have hlast : t.reading.second = 60 := by
      simp only [reading, hleap, if_false]
      omega
    simp only [if_pos hlast]
    refine t.ofParts?_eq_some ?_ ?_
    · simp only [reading]
      omega
    · simp only [reading, hleap, if_false]
      omega

/-- Every instant is read back from its timestamp. -/
theorem Instant.parse?_stamp (t : Instant) : parse? t.stamp = some t := by
  have htext : t.stamp.toList = t.clockText.toList ++ ['Z'] := by simp [stamp]
  have hread : readTimestamp? (t.clockText.toList ++ ['Z']) = some (t.reading, []) :=
    t.readTimestamp?_clockText (by simp [Stops]) (fun cs => by simp) rfl
  simp only [parse?, htext, hread, List.all_nil, if_true, t.instant?_reading]

end Billing
