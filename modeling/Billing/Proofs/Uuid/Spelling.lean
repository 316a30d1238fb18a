import Mathlib.Algebra.Ring.Nat
import Billing.Identifier

/-!
# Identifiers are read back

Every identifier is read back from its written form.
-/

namespace Billing.Uuid

variable {ns : List Nat} {ds cs : List Char}

/-! ## Digits -/

/-- The number of the last digits of a number. -/
theorem foldl_lastDigits (n k : Nat) :
    (lastDigits n k).foldl (fun n d => 16 * n + d) 0 = n % 16 ^ k := by
  induction k generalizing n with
  | zero => simp [lastDigits, Nat.mod_one]
  | succ k ih =>
      rw [lastDigits, List.foldl_append, ih, Nat.pow_succ', Nat.mod_mul]
      simp [Nat.add_comm]

theorem ofDigits_digits (u : Uuid) : ofDigits u.digits = u := by
  have hlt : u.bits.toNat < 16 ^ 32 := u.bits.isLt
  rw [ofDigits, digits, foldl_lastDigits, Nat.mod_eq_of_lt hlt, BitVec.ofNat_toNat,
    BitVec.setWidth_eq]

theorem lt_of_mem_digits {u : Uuid} {d : Nat} (h : d ∈ u.digits) : d < 16 := lt_of_mem_lastDigits h

/-! ## Characters -/

/-- These characters are hexadecimal digits, in either case, of these values. -/
def HaveValues (ds : List Char) (ns : List Nat) : Prop := ds.map Text.hexDigit? = ns.map some

theorem HaveValues.length (h : HaveValues ds ns) : ds.length = ns.length := by
  simpa [HaveValues] using congrArg List.length h

theorem HaveValues.take (h : HaveValues ds ns) (k : Nat) : HaveValues (ds.take k) (ns.take k) := by
  rw [HaveValues, List.map_take, List.map_take, h]

theorem HaveValues.drop (h : HaveValues ds ns) (k : Nat) : HaveValues (ds.drop k) (ns.drop k) := by
  rw [HaveValues, List.map_drop, List.map_drop, h]

theorem haveValues_map (h : ∀ n ∈ ns, n < 16) : HaveValues (ns.map Text.hexDigit) ns := by
  rw [HaveValues, List.map_map]
  exact List.map_congr_left fun n hn => Text.hexDigit?_hexDigit (h n hn)

theorem readDigits_append (h : HaveValues ds ns) (cs : List Char) :
    readDigits ds.length (ds ++ cs) = some (ns, cs) := by
  induction ds generalizing ns with
  | nil =>
      cases List.length_eq_zero_iff.mp h.length.symm
      rfl
  | cons d ds ih =>
      cases ns with
      | nil => simp [HaveValues] at h
      | cons n ns =>
          obtain ⟨hd, hds⟩ := List.cons.inj h
          simp only [List.length_cons, List.cons_append, readDigits, hd, ih hds]

/-- Groups of digits with hyphens between them are read back. -/
theorem readGroups_hyphenate (sizes : List Nat) (h : HaveValues ds ns)
    (hlen : ds.length = sizes.sum) :
    readGroups sizes (hyphenate sizes ds) = some (ns, []) := by
  induction sizes generalizing ds ns with
  | nil =>
      have hns : ns.length = 0 := h.length.symm.trans hlen
      cases List.length_eq_zero_iff.mp hns
      rfl
  | cons k sizes ih =>
      cases sizes with
      | nil =>
          have hk : ds.length = k := by simpa using hlen
          have hread := readDigits_append h []
          rw [List.append_nil, hk] at hread
          rw [readGroups, hyphenate, List.take_of_length_le (Nat.le_of_eq hk), hread]
      | cons l sizes =>
          have hsum : ds.length = k + (l :: sizes).sum := by rw [hlen, List.sum_cons]
          have hk : (ds.take k).length = k := by
            rw [List.length_take, hsum]
            exact Nat.min_eq_left (Nat.le_add_right ..)
          -- The first group is read up to its hyphen, and the rest by induction.
          have hread := readDigits_append (h.take k) ('-' :: hyphenate (l :: sizes) (ds.drop k))
          have hrest := ih (h.drop k) (by rw [List.length_drop, hsum, Nat.add_sub_cancel_left])
          rw [hk] at hread
          rw [readGroups, hyphenate, hread]
          · simp only [hrest, Option.map_some, List.take_append_drop]
          · simp
          · simp

/-! ## Texts -/

theorem byteLength_eq_length (h : ∀ c ∈ cs, c.utf8Size = 1) : byteLength cs = cs.length := by
  have hsum (n : Nat) : cs.foldl (fun n c => n + c.utf8Size) n = n + cs.length := by
    induction cs generalizing n with
    | nil => rfl
    | cons c cs ih =>
        rw [List.foldl_cons, h c List.mem_cons_self, ih fun c hc => h c (List.mem_cons_of_mem _ hc),
          List.length_cons]
        omega
  rw [byteLength, hsum, Nat.zero_add]

theorem mem_hyphenate {c : Char} {sizes : List Nat} (h : c ∈ hyphenate sizes cs) :
    c = '-' ∨ c ∈ cs := by
  induction sizes generalizing cs with
  | nil => cases h
  | cons k sizes ih =>
      cases sizes with
      | nil => exact .inr (List.mem_of_mem_take h)
      | cons l sizes =>
          rcases List.mem_append.mp h with h | h
          · exact .inr (List.mem_of_mem_take h)
          · rcases List.mem_cons.mp h with h | h
            · exact .inl h
            · exact (ih h).imp_right List.mem_of_mem_drop

theorem utf8Size_hexDigit {d : Nat} (h : d < 16) : (Text.hexDigit d).utf8Size = 1 := by
  have hall : ∀ d : Fin 16, (Text.hexDigit d).utf8Size = 1 := by decide
  exact hall ⟨d, h⟩

theorem byteLength_chars (u : Uuid) : byteLength u.chars = 36 := by
  rw [byteLength_eq_length]
  · simp [chars, groupSizes, hyphenate, length_digits]
  · intro c hc
    rcases mem_hyphenate hc with rfl | hc
    · rfl
    · obtain ⟨d, hd, rfl⟩ := List.mem_map.mp hc
      exact utf8Size_hexDigit (lt_of_mem_digits hd)

theorem ofChars?_chars (u : Uuid) : ofChars? u.chars = some u := by
  have hread : HaveValues (u.digits.map Text.hexDigit) u.digits :=
    haveValues_map fun _ => lt_of_mem_digits
  have hgroups := readGroups_hyphenate groupSizes hread (by simp [length_digits, groupSizes])
  have hpart : hyphenatedPart? u.chars = some u.chars := by
    simp only [hyphenatedPart?, byteLength_chars]
  rw [ofChars?, byteLength_chars, if_neg (by decide), hpart, Option.bind_some, ofGroups?, chars,
    hgroups]
  exact congrArg some u.ofDigits_digits

theorem parse_text (u : Uuid) : parse u.text = .ok u := by
  rw [parse, text, String.toList_ofList, ofChars?_chars]

end Billing.Uuid

namespace Billing.Id

theorem parse_text {k : IdKind} (i : Id k) : parse k i.text = .ok i := by
  rw [parse, text, Uuid.parse_text]

end Billing.Id
