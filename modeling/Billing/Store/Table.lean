/-!
# Tables

A table is a list of rows with a key, of which no two have the same key as long as rows are put by
it. A look-up finds the row of a key; putting a row replaces the one with its key.
-/

namespace Billing.Store.Table

variable {α κ : Type} [DecidableEq κ]

/-- The row with a key. -/
def find? (key : α → κ) (k : κ) (rows : List α) : Option α := rows.find? fun r => key r = k

/-- Replaces the row with the same key, or adds the row at the end. -/
def put (key : α → κ) (row : α) : List α → List α
  | [] => [row]
  | r :: rows => if key r = key row then row :: rows else r :: put key row rows

theorem find?_put_self (key : α → κ) (row : α) (rows : List α) :
    find? key (key row) (put key row rows) = some row := by
  induction rows with
  | nil => simp [put, find?]
  | cons r rows ih =>
    by_cases h : key r = key row
    · simp [put, find?, h]
    · simpa [put, find?, h] using ih

theorem find?_put_of_ne {key : α → κ} {row : α} {k : κ} (h : k ≠ key row) (rows : List α) :
    find? key k (put key row rows) = find? key k rows := by
  induction rows with
  | nil => simp [put, find?, Ne.symm h]
  | cons r rows ih =>
    by_cases hr : key r = key row
    · simp [put, find?, hr, Ne.symm h]
    · simp only [put, hr, if_false]
      simp only [find?, List.find?_cons] at ih ⊢
      split
      · rfl
      · exact ih

/-- A row that is put is found under its key, and every other row as before. -/
theorem find?_put (key : α → κ) (row : α) (k : κ) (rows : List α) :
    find? key k (put key row rows) = if key row = k then some row else find? key k rows := by
  split
  · rename_i h
    rw [← h]
    exact find?_put_self key row rows
  · rename_i h
    exact find?_put_of_ne (Ne.symm h) rows

theorem key_of_find? {key : α → κ} {k : κ} {rows : List α} {row : α}
    (h : find? key k rows = some row) : key row = k := by
  have := List.find?_some h
  simpa using this

end Billing.Store.Table
