import Billing.Identifier

/-!
# Things by number

Calls, commands and runs are numbered as they come, by their place in a list that only grows. What
is found under a number after one more has come, and after one has changed. Identifiers are numbered
as they are handed out, and no two of the first 2⁶² are the same.
-/

namespace Billing

/-! ## Places in a list -/

variable {α : Type} {xs ys : List α} {a b : α} {i j : Nat}

theorem getElem?_concat_eq_some_iff :
    (xs ++ [a])[i]? = some b ↔ xs[i]? = some b ∨ i = xs.length ∧ b = a := by
  rw [List.getElem?_append]
  split
  · rename_i h
    simp [Nat.ne_of_lt h]
  · rename_i h
    have hn : xs[i]? = none := List.getElem?_eq_none (Nat.le_of_not_lt h)
    rw [hn, List.getElem?_singleton]
    split
    · rename_i h0
      simp [show i = xs.length by omega, eq_comm]
    · rename_i h0
      simp [show i ≠ xs.length by omega]

theorem getElem?_concat_of_some (h : xs[i]? = some b) : (xs ++ [a])[i]? = some b :=
  getElem?_concat_eq_some_iff.mpr (Or.inl h)

theorem getElem?_set_eq_some_iff (h : xs[i]? = some a) {c : α} :
    (xs.set i b)[j]? = some c ↔ j = i ∧ c = b ∨ j ≠ i ∧ xs[j]? = some c := by
  have hi : i < xs.length := (List.getElem?_eq_some_iff.mp h).1
  by_cases hj : j = i
  · subst hj
    simp [hi, eq_comm]
  · simp [List.getElem?_set_ne (Ne.symm hj), hj]

theorem split_append {bs rest : List α} (h : xs ++ a :: rest = bs ++ ys) :
    (∃ more, bs = xs ++ a :: more ∧ rest = more ++ ys) ∨
      ∃ more, xs = bs ++ more ∧ ys = more ++ a :: rest := by
  rcases List.append_eq_append_iff.mp h with ⟨more, hbs, hrest⟩ | ⟨more, hxs, hys⟩
  · cases more with
    | nil =>
        rw [List.append_nil] at hbs
        exact Or.inr ⟨[], by rw [hbs, List.append_nil], hrest.symm⟩
    | cons b more =>
        rw [List.cons_append] at hrest
        cases hrest
        exact Or.inl ⟨more, hbs, rfl⟩
  · exact Or.inr ⟨more, hxs, hys⟩

/-- What all weigh together. -/
def total (weight : α → Nat) : List α → Nat
  | [] => 0
  | x :: xs => weight x + total weight xs

theorem total_set (weight : α → Nat) (h : xs[i]? = some a) (b : α) :
    total weight (xs.set i b) + weight a = total weight xs + weight b := by
  induction xs generalizing i with
  | nil => cases h
  | cons x xs ih =>
      cases i with
      | zero =>
          cases h
          simp only [List.set_cons_zero, total]
          omega
      | succ i =>
          have := ih h
          simp only [List.set_cons_succ, total]
          omega

/-! ## Identifiers -/

/-- How many identifiers can be handed out before one comes again. -/
def Id.supply : Nat := 0x4000000000000000

/-- An identifier is one of the first so many. -/
def Id.HandedOut {k : IdKind} (fresh : Nat) (i : Id k) : Prop := ∃ n < fresh, i = .numbered n

namespace Id

variable {k : IdKind} {id : Id k} {m n : Nat}

theorem eq_of_numbered_eq (hm : m < supply) (hn : n < supply)
    (h : (numbered m : Id k) = numbered n) : m = n := by
  have hbits : (0x019c0000000070008000000000000000 + m % 0x4000000000000000) % 2 ^ 128 =
      (0x019c0000000070008000000000000000 + n % 0x4000000000000000) % 2 ^ 128 := by
    simpa [numbered, Uuid.numbered] using congrArg (fun i : Id k => i.uuid.bits.toNat) h
  simp only [supply] at hm hn
  omega

theorem HandedOut.mono (h : id.HandedOut m) (hmn : m ≤ n) : id.HandedOut n := by
  obtain ⟨l, hl, hid⟩ := h
  exact ⟨l, Nat.lt_of_lt_of_le hl hmn, hid⟩

theorem HandedOut.ne (h : id.HandedOut n) (hn : n < supply) : numbered n ≠ id := by
  obtain ⟨l, hl, rfl⟩ := h
  intro he
  have := eq_of_numbered_eq hn (Nat.lt_trans hl hn) he
  omega

theorem handedOut_succ (n : Nat) : (numbered n : Id k).HandedOut (n + 1) :=
  ⟨n, Nat.lt_succ_self n, rfl⟩

end Id

end Billing
