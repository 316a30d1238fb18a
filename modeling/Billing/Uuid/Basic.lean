import Billing.Text.Ascii

/-!
# Universally unique identifiers

A number of 128 bits, and its written form: 32 small hexadecimal digits in five groups of 8, 4, 4,
4 and 12, with hyphens between the groups.
-/

namespace Billing

/-- A number of 128 bits that names one thing. -/
structure Uuid where
  bits : BitVec 128
  deriving DecidableEq, Hashable

namespace Uuid

/-- The identifier whose bits are all zero. -/
def nil : Uuid := ⟨0⟩

/-- The value of hexadecimal digits, the most significant first. -/
def ofDigits (ds : List Nat) : Uuid := ⟨BitVec.ofNat 128 (ds.foldl (fun n d => 16 * n + d) 0)⟩

/-- The last `k` hexadecimal digits of a number, the most significant first. -/
def lastDigits (n : Nat) : Nat → List Nat
  | 0 => []
  | k + 1 => lastDigits (n / 16) k ++ [n % 16]

/-- The 32 hexadecimal digits of an identifier. -/
def digits (u : Uuid) : List Nat := lastDigits u.bits.toNat 32

/-- The lengths of the groups of digits. -/
def groupSizes : List Nat := [8, 4, 4, 4, 12]

/-- Characters in groups of the given sizes, with a hyphen between two groups. -/
def hyphenate : List Nat → List Char → List Char
  | [], _ => []
  | [k], cs => cs.take k
  | k :: ks, cs => cs.take k ++ '-' :: hyphenate ks (cs.drop k)

/-- The written form of an identifier. -/
def chars (u : Uuid) : List Char := hyphenate groupSizes (u.digits.map Text.hexDigit)

/-- The written form of an identifier. -/
def text (u : Uuid) : String := String.ofList u.chars

/-- The version is the thirteenth hexadecimal digit. -/
def version (u : Uuid) : Nat := u.digits.getD 12 0

/-- Identifier number `n` of those that are handed out: version 7, and later ones are larger. -/
def numbered (n : Nat) : Uuid :=
  ⟨BitVec.ofNat 128 (0x019c0000000070008000000000000000 + n % 0x4000000000000000)⟩

theorem length_lastDigits (n k : Nat) : (lastDigits n k).length = k := by
  induction k generalizing n with
  | zero => rfl
  | succ k ih => simp [lastDigits, ih]

theorem length_digits (u : Uuid) : u.digits.length = 32 := length_lastDigits _ _

theorem lt_of_mem_lastDigits {n k d : Nat} (h : d ∈ lastDigits n k) : d < 16 := by
  induction k generalizing n with
  | zero => simp [lastDigits] at h
  | succ k ih =>
    simp only [lastDigits, List.mem_append, List.mem_singleton] at h
    rcases h with h | rfl
    · exact ih h
    · exact Nat.mod_lt _ (by decide)

end Uuid

end Billing
