import Mathlib.Algebra.Ring.Nat
import Billing.Text.Blank
import Billing.Text.Decimal

/-!
# Numerals

What a number is written as, with or without zeros in front, is a numeral: digits that have the
value of the number. A reader of whole texts reads numerals only, and reads them exactly.
-/

namespace Billing.Text

theorem toNat_of_isDigit {c : Char} (h : c.isDigit = true) : 48 ≤ c.toNat ∧ c.toNat ≤ 57 := by
  simp only [Char.isDigit, Bool.and_eq_true, decide_eq_true_eq] at h
  exact ⟨UInt32.le_iff_toNat_le.mp h.1, UInt32.le_iff_toNat_le.mp h.2⟩

theorem isBlank_of_isDigit {c : Char} (h : c.isDigit = true) : isBlank c = false := by
  obtain ⟨hlow, hhigh⟩ := toNat_of_isDigit h
  simp [isBlank]
  omega

/-- At least one digit, and together they have this value. -/
structure Numeral (ds : List Char) (n : Nat) : Prop where
  nonempty : ds ≠ []
  digits : ∀ c ∈ ds, c.isDigit = true
  value : Nat.ofDigitChars 10 ds 0 = n

variable {ds rest : List Char} {n width : Nat}

theorem numeral_toDigits (n : Nat) : Numeral (Nat.toDigits 10 n) n where
  nonempty := Nat.toDigits_ne_nil
  digits := fun _ => Nat.isDigit_of_mem_toDigits (by decide) (by decide)
  value := Nat.ofDigitChars_ten_toDigits

theorem numeral_padded (width n : Nat) : Numeral (padded width n).toList n := by
  have h := numeral_toDigits n
  rw [padded, String.toList_ofList]
  refine ⟨by simp [h.nonempty], fun c hc => ?_, ?_⟩
  · rcases List.mem_append.mp hc with hc | hc
    · rw [List.eq_of_mem_replicate hc]
      rfl
    · exact h.digits c hc
  · rw [Nat.ofDigitChars_append, Nat.ofDigitChars_replicate_zero, Nat.mul_zero, h.value]

theorem length_padded (hn : n < 10 ^ width) (hw : 0 < width) :
    (padded width n).toList.length = width := by
  have hle := (Nat.length_toDigits_le_iff (by decide) hw).mpr hn
  rw [padded, String.toList_ofList, List.length_append, List.length_replicate]
  omega

/-! ## In front of other characters -/

/-- No digit follows. -/
def Stops (cs : List Char) : Prop := ∀ c ∈ cs.head?, c.isDigit = false

theorem Stops.dropWhile (h : Stops rest) : rest.dropWhile Char.isDigit = rest := by
  cases rest with
  | nil => rfl
  | cons c cs => simp [h c rfl]

theorem Numeral.takeWhile_append (h : Numeral ds n) (hr : Stops rest) :
    (ds ++ rest).takeWhile Char.isDigit = ds := by
  rw [List.takeWhile_append_of_pos h.digits]
  cases rest with
  | nil => simp
  | cons c cs => simp [hr c rfl]

theorem Numeral.dropWhile_append (h : Numeral ds n) (hr : Stops rest) :
    (ds ++ rest).dropWhile Char.isDigit = rest := by
  rw [List.dropWhile_append_of_pos h.digits, hr.dropWhile]

theorem Numeral.append_ne_cons (h : Numeral ds n) {c : Char} (hc : c.isDigit = false)
    (cs : List Char) : ds ++ rest ≠ c :: cs := by
  cases ds with
  | nil => exact absurd rfl h.nonempty
  | cons d ds =>
      intro heq
      obtain ⟨rfl, -⟩ := List.cons.inj heq
      simp [h.digits d List.mem_cons_self] at hc

theorem Numeral.dropBlanks_append (h : Numeral ds n) (rest : List Char) :
    dropBlanks (ds ++ rest) = ds ++ rest := by
  cases ds with
  | nil => exact absurd rfl h.nonempty
  | cons c cs =>
      have hc := isBlank_of_isDigit (h.digits c List.mem_cons_self)
      simp [dropBlanks, hc]

/-! ## Reading a whole text -/

theorem le_ofDigitChars (ds : List Char) (n : Nat) : n ≤ Nat.ofDigitChars 10 ds n := by
  induction ds generalizing n with
  | nil => simp
  | cons c cs ih =>
      rw [Nat.ofDigitChars_cons]
      refine Nat.le_trans ?_ (ih _)
      omega

/-- No number on the way to the last one is larger, so it is enough to test that one. -/
theorem readDigits_eq_ok_iff {limit k : Nat} (hk : k ≤ limit) :
    readDigits limit k ds = .ok n ↔
      (∀ c ∈ ds, c.isDigit = true) ∧ Nat.ofDigitChars 10 ds k = n ∧ n ≤ limit := by
  induction ds generalizing k with
  | nil => simpa [readDigits] using fun h : k = n => h ▸ hk
  | cons c cs ih =>
      rw [readDigits, Nat.ofDigitChars_cons, List.forall_mem_cons]
      cases hc : c.isDigit with
      | false => simp [digit?, hc]
      | true =>
          simp only [digit?, hc, if_true, true_and]
          by_cases hle : 10 * k + (c.toNat - '0'.toNat) ≤ limit
          · rw [if_pos hle, ih hle]
          · have := le_ofDigitChars cs (10 * k + (c.toNat - '0'.toNat))
            rw [if_neg hle]
            refine ⟨nofun, fun ⟨_, hval, hn⟩ => ?_⟩
            omega

/-- A whole number up to the limit is read from its numerals, with one plus sign in front or none. -/
theorem readWhole_eq_ok_iff {limit : Nat} {cs : List Char} :
    readWhole limit cs = .ok n ↔
      ∃ ds, (cs = ds ∨ cs = '+' :: ds) ∧ Numeral ds n ∧ n ≤ limit := by
  have hread : ∀ {ds : List Char}, ds ≠ [] →
      (readDigits limit 0 ds = .ok n ↔ Numeral ds n ∧ n ≤ limit) := by
    intro ds hne
    rw [readDigits_eq_ok_iff (Nat.zero_le limit)]
    exact ⟨fun ⟨hd, hv, hn⟩ => ⟨⟨hne, hd, hv⟩, hn⟩, fun ⟨h, hn⟩ => ⟨h.digits, h.value, hn⟩⟩
  constructor
  · intro h
    unfold readWhole at h
    split at h
    · cases h
    · cases h
    · next ds hne => exact ⟨ds, Or.inr rfl, (hread fun hnil => hne (by rw [hnil])).mp h⟩
    · next hne _ _ => exact ⟨cs, Or.inl rfl, (hread hne).mp h⟩
  · rintro ⟨ds, rfl | rfl, hds, hn⟩
    · have hplus : ∀ rest, cs = '+' :: rest → False := fun rest heq =>
        hds.append_ne_cons rfl rest ((List.append_nil cs).trans heq)
      rw [readWhole]
      · exact (hread hds.nonempty).mpr ⟨hds, hn⟩
      · exact hds.nonempty
      · exact hplus []
      · exact hplus
    · rw [readWhole]
      · exact (hread hds.nonempty).mpr ⟨hds, hn⟩
      · exact hds.nonempty

end Billing.Text
