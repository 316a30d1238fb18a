import Mathlib.Data.List.Forall2
import Billing.Store.Table

/-!
# Rows of a table

Putting a row loses none, and it keeps the keys of a table apart. In a table whose keys are apart
every row is found under its key, and a row that is put replaces the one with its key.
-/

namespace Billing.Store.Table

variable {α κ : Type} [DecidableEq κ] {key : α → κ} {k : κ} {row r : α} {rows : List α}

theorem mem_of_find? (h : find? key k rows = some r) : r ∈ rows := List.mem_of_find?_eq_some h

/-- Whatever is put, what was found is found. -/
theorem finds_put (row : α) (h : find? key k rows ≠ none) :
    find? key k (put key row rows) ≠ none := by
  rw [find?_put]
  split
  · exact Option.some_ne_none row
  · exact h

/-- A row that is put back changes nothing. -/
theorem put_of_find? (h : find? key k rows = some row) : put key row rows = rows := by
  have hkey := key_of_find? h
  induction rows with
  | nil => cases h
  | cons r rows ih =>
      unfold put
      unfold find? at h ih
      rw [List.find?_cons] at h
      by_cases hr : key r = k
      · simp only [hr, decide_true] at h
        cases h
        rw [if_pos rfl]
      · simp only [hr, decide_false] at h
        rw [if_neg (by rw [hkey]; exact hr), ih h]

theorem mem_put (h : r ∈ put key row rows) : r = row ∨ r ∈ rows := by
  induction rows with
  | nil => exact Or.inl (List.mem_singleton.mp h)
  | cons r' rows ih =>
      unfold put at h
      split at h
      · rcases List.mem_cons.mp h with h | h
        · exact Or.inl h
        · exact Or.inr (List.mem_cons_of_mem _ h)
      · rcases List.mem_cons.mp h with rfl | h
        · exact Or.inr List.mem_cons_self
        · exact (ih h).imp_right (List.mem_cons_of_mem _)

/-- A row whose key is not found is added at the end. -/
theorem put_of_not_found (h : find? key (key row) rows = none) :
    put key row rows = rows ++ [row] := by
  induction rows with
  | nil => rfl
  | cons r rows ih =>
      unfold find? at h
      rw [List.find?_cons] at h
      by_cases hr : key r = key row
      · simp [hr] at h
      · simp only [hr, decide_false] at h
        unfold put
        rw [if_neg hr, ih h, List.cons_append]

theorem find?_ne_none (h : r ∈ rows) : find? key (key r) rows ≠ none := by
  unfold find?
  rw [Ne, List.find?_eq_none]
  exact fun hn => hn r h (by simp)

/-- A put is not seen by who sees neither the row nor the one that it replaces. -/
theorem filter_put {p : α → Bool} (hrow : p row = false)
    (hold : ∀ r, find? key (key row) rows = some r → p r = false) :
    (put key row rows).filter p = rows.filter p := by
  induction rows with
  | nil => simp [put, hrow]
  | cons r rows ih =>
      unfold find? at hold ih
      rw [List.find?_cons] at hold
      unfold put
      by_cases hkey : key r = key row
      · simp only [hkey, decide_true, Option.some.injEq, forall_eq'] at hold
        rw [if_pos hkey, List.filter_cons, List.filter_cons, hrow, hold]
        rfl
      · simp only [hkey, decide_false] at hold
        rw [if_neg hkey, List.filter_cons, List.filter_cons, ih hold]

/-! ## A table that grows -/

/-- The rows of a later table whose keys are not found in an earlier one. -/
def added (key : α → κ) (rows later : List α) : List α :=
  later.filter fun r => (find? key (key r) rows).isNone

/-- A table becomes another: its rows stay where they are, each up to a relation, and the rows that
are added come behind them. -/
def Grows (R : α → α → Prop) (key : α → κ) (rows later : List α) : Prop :=
  ∃ kept, List.Forall₂ R rows kept ∧ later = kept ++ added key rows later

section Grows

variable {R : α → α → Prop}

theorem added_of_found {later : List α} (h : ∀ r ∈ later, find? key (key r) rows ≠ none) :
    added key rows later = [] :=
  List.filter_eq_nil_iff.mpr fun r hr => by simpa [Option.isNone_iff_eq_none] using h r hr

theorem Grows.refl (hR : ∀ r, R r r) (rows : List α) : Grows R key rows rows :=
  ⟨rows, List.forall₂_same.mpr fun r _ => hR r,
    by rw [added_of_found fun _ hr => find?_ne_none hr, List.append_nil]⟩

theorem Grows.put_new (hR : ∀ r, R r r) (h : find? key (key row) rows = none) :
    Grows R key rows (put key row rows) := by
  refine ⟨rows, List.forall₂_same.mpr fun r _ => hR r, ?_⟩
  have hrows : added key rows rows = [] := added_of_found fun _ hr => find?_ne_none hr
  unfold added at hrows ⊢
  rw [put_of_not_found h, List.filter_append, hrows]
  simp [h]

theorem Grows.put_found (hR : ∀ r, R r r) (h : find? key (key row) rows = some r) (hr : R r row) :
    Grows R key rows (put key row rows) := by
  have hkept : List.Forall₂ R rows (put key row rows) := by
    induction rows with
    | nil => cases h
    | cons r' rows ih =>
        unfold find? at h ih
        rw [List.find?_cons] at h
        unfold put
        by_cases hkey : key r' = key row
        · simp only [hkey, decide_true] at h
          cases h
          rw [if_pos hkey]
          exact .cons hr (List.forall₂_same.mpr fun r _ => hR r)
        · simp only [hkey, decide_false] at h
          rw [if_neg hkey]
          exact .cons (hR r') (ih h)
  have hfound : ∀ r' ∈ put key row rows, find? key (key r') rows ≠ none := by
    intro r' hr'
    rcases mem_put hr' with rfl | hr'
    · rw [h]
      exact Option.some_ne_none r
    · exact find?_ne_none hr'
  exact ⟨_, hkept, by rw [added_of_found hfound, List.append_nil]⟩

end Grows

/-! ## Keys apart -/

/-- No two rows have the same key. -/
def Apart (key : α → κ) (rows : List α) : Prop := rows.Pairwise fun a b => key a ≠ key b

theorem Apart.put (h : Apart key rows) (row : α) : Apart key (put key row rows) := by
  induction rows with
  | nil => exact List.pairwise_singleton _ _
  | cons r rows ih =>
      obtain ⟨hr, hrows⟩ := List.pairwise_cons.mp h
      unfold Table.put
      split
      · rename_i hkey
        exact List.pairwise_cons.mpr ⟨fun r' hr' => hkey ▸ hr r' hr', hrows⟩
      · rename_i hkey
        refine List.pairwise_cons.mpr ⟨fun r' hr' => ?_, ih hrows⟩
        rcases mem_put hr' with rfl | hr'
        · exact hkey
        · exact hr r' hr'

theorem Apart.find? (h : Apart key rows) (hr : r ∈ rows) : find? key (key r) rows = some r := by
  induction rows with
  | nil => cases hr
  | cons r' rows ih =>
      obtain ⟨hhead, hrows⟩ := List.pairwise_cons.mp h
      unfold Table.find?
      rw [List.find?_cons]
      rcases List.mem_cons.mp hr with rfl | hr
      · simp
      · have hne : key r' ≠ key r := hhead r hr
        simp only [hne, decide_false]
        exact ih hrows hr

/-- After a put a table whose keys are apart holds the row, and of the rows before those with
another key. -/
theorem Apart.mem_put_iff (h : Apart key rows) :
    r ∈ Table.put key row rows ↔ r = row ∨ r ∈ rows ∧ key r ≠ key row := by
  have hput := h.put row
  constructor
  · intro hr
    by_cases hkey : key r = key row
    · have hfound := hput.find? hr
      rw [hkey, find?_put_self] at hfound
      exact Or.inl (Option.some.inj hfound).symm
    · exact (mem_put hr).imp_right fun hr => ⟨hr, hkey⟩
  · rintro (rfl | ⟨hr, hkey⟩)
    · exact mem_of_find? (find?_put_self key r rows)
    · have hfound := h.find? hr
      rw [← find?_put_of_ne hkey rows] at hfound
      exact mem_of_find? hfound

end Billing.Store.Table
