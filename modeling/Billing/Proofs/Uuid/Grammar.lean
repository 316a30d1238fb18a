import Mathlib.Data.List.Basic
import Mathlib.Data.List.Induction
import Billing.Proofs.Uuid.Spelling

/-!
# The texts that are read as identifiers

The four spellings as a grammar of their own, apart from the reader. The reader takes the texts of
this grammar and no others, and what it makes of a text depends on the digits alone, in either case.
-/

namespace Billing.Uuid

variable {k : Nat} {c : Char} {cs ds es rest part : List Char} {ns ms : List Nat} {u : Uuid}

/-! ## The grammar -/

/-- A hexadecimal digit in either case. -/
def IsDigit (c : Char) : Prop :=
  '0' ≤ c ∧ c ≤ '9' ∨ 'a' ≤ c ∧ c ≤ 'f' ∨ 'A' ≤ c ∧ c ≤ 'F'

/-- Digits in groups of eight, four, four, four and twelve, with a hyphen between two groups. -/
inductive Hyphenated : List Char → List Char → Prop where
  | groups {a b c d e : List Char} (first : a.length = 8) (second : b.length = 4)
      (third : c.length = 4) (fourth : d.length = 4) (fifth : e.length = 12) :
      Hyphenated (a ++ b ++ c ++ d ++ e) (a ++ '-' :: b ++ '-' :: c ++ '-' :: d ++ '-' :: e)

/-- The ways to spell digits. -/
inductive Spells (ds : List Char) : List Char → Prop where
  | plain : Spells ds ds
  | hyphenated {cs : List Char} (form : Hyphenated ds cs) : Spells ds cs
  | braced {cs : List Char} (form : Hyphenated ds cs) : Spells ds ('\x7b' :: (cs ++ ['\x7d']))
  | named {word cs : List Char} (prefixed : word.map Char.toLower = "urn:uuid:".toList)
      (form : Hyphenated ds cs) : Spells ds (word ++ cs)

/-- A text is a spelling of 32 hexadecimal digits. -/
structure Spelling (ds : List Char) (s : String) : Prop where
  length : ds.length = 32
  digits : ∀ c ∈ ds, IsDigit c
  spells : Spells ds s.toList

/-! ## Digits -/

theorem isSome_hexDigit?_iff : (Text.hexDigit? c).isSome = true ↔ IsDigit c := by
  have hdec : c.isDigit = true ↔ '0' ≤ c ∧ c ≤ '9' := by
    simp only [Char.isDigit, Bool.and_eq_true, decide_eq_true_eq]
    rfl
  unfold Text.hexDigit? IsDigit
  split
  · rename_i h
    simp [hdec.mp h]
  · rename_i h
    rw [hdec] at h
    split
    · rename_i h'
      simp [h']
    · split <;> simp [*]

/-- The digits of these values, written small. -/
theorem digit_small (h : Text.hexDigit? c = some k) : k < 16 ∧ Text.hexDigit k = c.toLower := by
  have hall : ∀ n : Fin 128, (Text.hexDigit? (Char.ofNat n)).all
      (fun k => k < 16 && Text.hexDigit k == (Char.ofNat n).toLower) = true := by
    decide
  have hc : c.toNat < 128 := by
    have hd := isSome_hexDigit?_iff.mp (Option.isSome_iff_exists.mpr ⟨k, h⟩)
    simp only [IsDigit, Char.le_def, UInt32.le_iff_toNat_le] at hd
    rw [Char.toNat]
    rcases hd with hd | hd | hd <;> exact Nat.lt_of_le_of_lt hd.2 (by decide)
  simpa [h] using hall ⟨c.toNat, hc⟩

theorem exists_values (h : ∀ c ∈ ds, IsDigit c) : ∃ ns, HaveValues ds ns := by
  induction ds with
  | nil => exact ⟨[], rfl⟩
  | cons c ds ih =>
      have hc := isSome_hexDigit?_iff.mpr (h c List.mem_cons_self)
      obtain ⟨n, hn⟩ := Option.isSome_iff_exists.mp hc
      obtain ⟨ns, hns⟩ := ih fun c hc => h c (List.mem_cons_of_mem _ hc)
      exact ⟨n :: ns, by rw [HaveValues, List.map_cons, hn, hns, List.map_cons]⟩

theorem HaveValues.isDigit (h : HaveValues ds ns) (hc : c ∈ ds) : IsDigit c := by
  have hmem : Text.hexDigit? c ∈ ns.map some := h ▸ List.mem_map.mpr ⟨c, hc, rfl⟩
  obtain ⟨n, _, hn⟩ := List.mem_map.mp hmem
  rw [← isSome_hexDigit?_iff, ← hn]
  rfl

/-- Digits that are read are the digits of their values, up to the case. -/
theorem HaveValues.map_hexDigit (h : HaveValues ds ns) :
    (∀ n ∈ ns, n < 16) ∧ ns.map Text.hexDigit = ds.map Char.toLower := by
  induction ds generalizing ns with
  | nil =>
      cases List.length_eq_zero_iff.mp h.length.symm
      simp
  | cons c ds ih =>
      cases ns with
      | nil => simp [HaveValues] at h
      | cons n ns =>
          obtain ⟨hc, hds⟩ := List.cons.inj h
          obtain ⟨hlt, hdigit⟩ := digit_small hc
          obtain ⟨hall, hmap⟩ := ih hds
          refine ⟨List.forall_mem_cons.mpr ⟨hlt, hall⟩, ?_⟩
          rw [List.map_cons, hdigit, hmap, List.map_cons]

theorem utf8Size_of_isDigit (h : IsDigit c) : c.utf8Size = 1 := by
  simp only [IsDigit, Char.le_def, UInt32.le_iff_toNat_le] at h
  rw [Char.utf8Size_eq_one_iff, UInt32.le_iff_toNat_le]
  rcases h with h | h | h <;> exact Nat.le_trans h.2 (by decide)

/-! ## Numbers -/

theorem foldl_lt (h : ∀ n ∈ ns, n < 16) (m : Nat) :
    ns.foldl (fun n d => 16 * n + d) m < (m + 1) * 16 ^ ns.length := by
  induction ns generalizing m with
  | nil => simp
  | cons n ns ih =>
      have hn := h n List.mem_cons_self
      calc (n :: ns).foldl (fun n d => 16 * n + d) m
          < (16 * m + n + 1) * 16 ^ ns.length := ih (fun n hn => h n (List.mem_cons_of_mem _ hn)) _
        _ ≤ (16 * (m + 1)) * 16 ^ ns.length := Nat.mul_le_mul_right _ (by omega)
        _ = (m + 1) * 16 ^ (n :: ns).length := by rw [List.length_cons, Nat.pow_succ]; ac_rfl

theorem lastDigits_foldl (h : ∀ n ∈ ns, n < 16) (m : Nat) :
    lastDigits (ns.foldl (fun n d => 16 * n + d) m) ns.length = ns := by
  induction ns using List.reverseRecOn with
  | nil => rfl
  | append_singleton ns n ih =>
      have hn := h n (by simp)
      rw [List.length_append, List.length_singleton, List.foldl_append, lastDigits]
      simp only [List.foldl_cons, List.foldl_nil]
      rw [Nat.mul_add_div (by decide), Nat.div_eq_of_lt hn, Nat.add_zero, Nat.mul_add_mod,
        Nat.mod_eq_of_lt hn, ih fun n hn => h n (List.mem_append_left _ hn)]

/-- The digits of which an identifier is made are its digits. -/
theorem digits_ofDigits (hlen : ns.length = 32) (h : ∀ n ∈ ns, n < 16) :
    (ofDigits ns).digits = ns := by
  have hlt : ns.foldl (fun n d => 16 * n + d) 0 < 2 ^ 128 :=
    Nat.lt_of_lt_of_eq (foldl_lt h 0) (by rw [hlen]; rfl)
  rw [digits, ofDigits, BitVec.toNat_ofNat, Nat.mod_eq_of_lt hlt, ← hlen, lastDigits_foldl h]

/-! ## Groups -/

theorem hyphenate_append {l : Nat} {sizes : List Nat} (h : ds.length = k) (es : List Char) :
    hyphenate (k :: l :: sizes) (ds ++ es) = ds ++ '-' :: hyphenate (l :: sizes) es := by
  rw [hyphenate, List.take_left' h, List.drop_left' h]
  simp

theorem hyphenated_iff : Hyphenated ds cs ↔ ds.length = 32 ∧ cs = hyphenate groupSizes ds := by
  constructor
  · rintro ⟨ha, hb, hc, hd, he⟩
    refine ⟨by simp [ha, hb, hc, hd, he], ?_⟩
    simp only [List.append_assoc, List.cons_append]
    rw [groupSizes, hyphenate_append ha, hyphenate_append hb, hyphenate_append hc,
      hyphenate_append hd, hyphenate, List.take_of_length_le (Nat.le_of_eq he)]
  · rintro ⟨hlen, rfl⟩
    have h := Hyphenated.groups (a := ds.take 8) (b := (ds.drop 8).take 4)
      (c := ((ds.drop 8).drop 4).take 4) (d := (((ds.drop 8).drop 4).drop 4).take 4)
      (e := (((ds.drop 8).drop 4).drop 4).drop 4)
      (by simp [hlen]) (by simp [hlen]) (by simp [hlen]) (by simp [hlen]) (by simp [hlen])
    simp only [List.append_assoc, List.cons_append, List.take_append_drop] at h
    have hlast : ((((ds.drop 8).drop 4).drop 4).drop 4).length ≤ 12 := by simp [hlen]
    simp only [groupSizes, hyphenate, List.take_of_length_le hlast]
    exact h

/-! ## What is read is in the grammar -/

theorem readDigits_eq_some (h : readDigits k cs = some (ns, rest)) :
    ∃ ds, cs = ds ++ rest ∧ ds.length = k ∧ HaveValues ds ns := by
  induction k generalizing cs ns with
  | zero =>
      cases h
      exact ⟨[], rfl, rfl, rfl⟩
  | succ k ih =>
      cases cs with
      | nil => cases h
      | cons c cs =>
          unfold readDigits at h
          split at h
          · rename_i n ms _ hc hms
            cases h
            obtain ⟨ds, rfl, hk, hds⟩ := ih hms
            refine ⟨c :: ds, rfl, by rw [List.length_cons, hk], ?_⟩
            rw [HaveValues, List.map_cons, hc, hds, List.map_cons]
          · cases h

theorem readGroups_eq_some {sizes : List Nat} (h : readGroups sizes cs = some (ns, rest)) :
    ∃ ds, cs = hyphenate sizes ds ++ rest ∧ ds.length = sizes.sum ∧ HaveValues ds ns := by
  induction sizes generalizing cs ns with
  | nil =>
      cases h
      exact ⟨[], rfl, rfl, rfl⟩
  | cons k sizes ih =>
      cases sizes with
      | nil =>
          obtain ⟨ds, rfl, hk, hds⟩ := readDigits_eq_some h
          refine ⟨ds, ?_, by simpa using hk, hds⟩
          rw [hyphenate, List.take_of_length_le (Nat.le_of_eq hk)]
      | cons l sizes =>
          rw [readGroups] at h
          · split at h
            · rename_i ms more hms
              obtain ⟨⟨es, last⟩, hes, he⟩ := Option.map_eq_some_iff.mp h
              cases he
              obtain ⟨ds, rfl, hk, hds⟩ := readDigits_eq_some hms
              obtain ⟨fs, rfl, hl, hfs⟩ := ih hes
              refine ⟨ds ++ fs, ?_, ?_, ?_⟩
              · rw [hyphenate_append hk, List.append_assoc, List.cons_append]
              · rw [List.length_append, hk, hl, List.sum_cons (a := k)]
              · rw [HaveValues, List.map_append, List.map_append, hds, hfs]
            · cases h
          · simp

theorem ofGroups?_eq_some_iff {sizes : List Nat} :
    ofGroups? sizes cs = some u ↔
      ∃ ds ns, cs = hyphenate sizes ds ∧ ds.length = sizes.sum ∧ HaveValues ds ns ∧
        u = ofDigits ns := by
  unfold ofGroups?
  constructor
  · intro h
    split at h
    · rename_i ns hns
      cases h
      obtain ⟨ds, hcs, hlen, hds⟩ := readGroups_eq_some hns
      exact ⟨ds, ns, by rw [hcs, List.append_nil], hlen, hds, rfl⟩
    · cases h
  · rintro ⟨ds, ns, rfl, hlen, hds, rfl⟩
    rw [readGroups_hyphenate sizes hds hlen]

/-! ## Bytes -/

theorem byteLength_eq_sum (cs : List Char) : byteLength cs = (cs.map Char.utf8Size).sum := by
  have hfold : ∀ n, cs.foldl (fun n c => n + c.utf8Size) n = n + (cs.map Char.utf8Size).sum := by
    induction cs with
    | nil => simp
    | cons c cs ih =>
        intro n
        rw [List.foldl_cons, ih, List.map_cons, List.sum_cons, Nat.add_assoc]
  rw [byteLength, hfold, Nat.zero_add]

theorem byteLength_append (cs ds : List Char) :
    byteLength (cs ++ ds) = byteLength cs + byteLength ds := by
  rw [byteLength_eq_sum, byteLength_eq_sum, byteLength_eq_sum, List.map_append, List.sum_append]

theorem byteLength_digits (h : ∀ c ∈ ds, IsDigit c) : byteLength ds = ds.length :=
  byteLength_eq_length fun c hc => utf8Size_of_isDigit (h c hc)

theorem byteLength_hyphenated (h : Hyphenated ds cs) (hd : ∀ c ∈ ds, IsDigit c) :
    byteLength cs = 36 := by
  rw [byteLength_eq_length]
  · cases h
    simp [*]
  · intro c hc
    rcases mem_hyphenate ((hyphenated_iff.mp h).2 ▸ hc) with rfl | hc
    · rfl
    · exact utf8Size_of_isDigit (hd c hc)

theorem utf8Size_toLower (c : Char) : c.toLower.utf8Size = c.utf8Size := by
  unfold Char.toLower
  split
  · rename_i h
    have hle : c.val.toNat ≤ 90 := UInt32.le_iff_toNat_le.mp h.2
    have hsmall : (c.val + ('a'.val - 'A'.val)).toNat ≤ 127 := by
      rw [UInt32.toNat_add, show ('a'.val - 'A'.val).toNat = 32 from rfl]
      omega
    rw [Char.utf8Size_eq_one_iff.mpr (UInt32.le_iff_toNat_le.mpr hsmall),
      Char.utf8Size_eq_one_iff.mpr (UInt32.le_iff_toNat_le.mpr (Nat.le_trans hle (by decide)))]
  · rfl

theorem byteLength_map_toLower (cs : List Char) :
    byteLength (cs.map Char.toLower) = byteLength cs := by
  rw [byteLength_eq_sum, byteLength_eq_sum, List.map_map]
  exact congrArg List.sum (List.map_congr_left fun c _ => utf8Size_toLower c)

/-! ## The four spellings -/

theorem spells_of_hyphenatedPart? (h : hyphenatedPart? cs = some part)
    (hp : Hyphenated ds part) : Spells ds cs := by
  unfold hyphenatedPart? at h
  split at h
  · cases h
    exact .hyphenated hp
  · unfold betweenBraces? at h
    split at h
    · rename_i cs
      split at h
      · rename_i hlast
        cases h
        rw [← List.dropLast_append_getLast? _ hlast]
        exact .braced hp
      · cases h
    · cases h
  · unfold afterResourcePrefix? at h
    split at h
    · rename_i hword
      cases h
      rw [← List.take_append_drop 9 cs]
      exact .named hword hp
    · cases h
  · cases h

/-- A spelling is of 32 bytes and nothing but digits, or it has a hyphenated part. -/
theorem Spells.exists_part (h : Spells ds cs) (hlen : ds.length = 32) (hd : ∀ c ∈ ds, IsDigit c) :
    byteLength cs = 32 ∧ cs = ds ∨
      byteLength cs ≠ 32 ∧ ∃ part, hyphenatedPart? cs = some part ∧ Hyphenated ds part := by
  cases h with
  | plain => exact Or.inl ⟨by rw [byteLength_digits hd, hlen], rfl⟩
  | hyphenated form =>
      have hbytes := byteLength_hyphenated form hd
      exact Or.inr ⟨by omega, cs, by simp only [hyphenatedPart?, hbytes], form⟩
  | @braced body form =>
      have hbytes : byteLength ('\x7b' :: (body ++ ['\x7d'])) = 38 := by
        rw [← List.singleton_append, byteLength_append, byteLength_append,
          byteLength_hyphenated form hd]
        rfl
      refine Or.inr ⟨by omega, body, ?_, form⟩
      simp [hyphenatedPart?, hbytes, betweenBraces?]
  | @named word body hword form =>
      have hlength : word.length = 9 := by simpa using congrArg List.length hword
      have hbytes : byteLength (word ++ body) = 45 := by
        have hword : byteLength word = 9 := by
          rw [← byteLength_map_toLower, hword]
          rfl
        rw [byteLength_append, byteLength_hyphenated form hd, hword]
      refine Or.inr ⟨by omega, body, ?_, form⟩
      simp only [hyphenatedPart?, hbytes, afterResourcePrefix?, List.take_left' hlength,
        List.drop_left' hlength]
      exact if_pos hword

theorem ofChars?_eq_some_iff :
    ofChars? cs = some u ↔
      ∃ ds ns, Spells ds cs ∧ ds.length = 32 ∧ HaveValues ds ns ∧ u = ofDigits ns := by
  unfold ofChars?
  constructor
  · intro h
    split at h
    · obtain ⟨ds, ns, rfl, hlen, hds, rfl⟩ := ofGroups?_eq_some_iff.mp h
      have hlen : ds.length = 32 := hlen
      refine ⟨ds, ns, ?_, hlen, hds, rfl⟩
      rw [hyphenate, List.take_of_length_le (Nat.le_of_eq hlen)]
      exact .plain
    · obtain ⟨part, hpart, h⟩ := Option.bind_eq_some_iff.mp h
      obtain ⟨ds, ns, rfl, hlen, hds, rfl⟩ := ofGroups?_eq_some_iff.mp h
      have hs := spells_of_hyphenatedPart? hpart (hyphenated_iff.mpr ⟨hlen, rfl⟩)
      exact ⟨ds, ns, hs, hlen, hds, rfl⟩
  · rintro ⟨ds, ns, hs, hlen, hds, rfl⟩
    have hdigits : ∀ c ∈ ds, IsDigit c := fun c hc => hds.isDigit hc
    rcases hs.exists_part hlen hdigits with ⟨hbytes, rfl⟩ | ⟨hbytes, part, hpart, form⟩
    · rw [if_pos hbytes]
      refine ofGroups?_eq_some_iff.mpr ⟨cs, ns, ?_, hlen, hds, rfl⟩
      rw [hyphenate, List.take_of_length_le (Nat.le_of_eq hlen)]
    · rw [if_neg hbytes, hpart, Option.bind_some]
      obtain ⟨_, rfl⟩ := hyphenated_iff.mp form
      exact ofGroups?_eq_some_iff.mpr ⟨ds, ns, rfl, hlen, hds, rfl⟩

/-- An identifier that is read from digits has these digits, written small. -/
theorem map_digits_ofDigits (h : HaveValues ds ns) (hlen : ds.length = 32) :
    (ofDigits ns).digits.map Text.hexDigit = ds.map Char.toLower := by
  obtain ⟨hlt, hmap⟩ := h.map_hexDigit
  rw [digits_ofDigits (h.length ▸ hlen) hlt, hmap]

/-- The digits of a number as they are written determine it. -/
theorem eq_of_map_digits {u v : Uuid}
    (h : u.digits.map Text.hexDigit = v.digits.map Text.hexDigit) : u = v := by
  have hu : u.chars = v.chars := by rw [chars, chars, h]
  have := ofChars?_chars u
  rw [hu, ofChars?_chars v] at this
  exact (Option.some.inj this).symm

end Billing.Uuid

namespace Billing.Id

open Uuid

variable {k : IdKind} {s t : String} {ds es : List Char} {i j : Id k}

theorem parse_eq_ok_iff : parse k s = .ok i ↔ ofChars? s.toList = some i.uuid := by
  unfold parse Uuid.parse
  cases ofChars? s.toList with
  | none => simp
  | some u =>
      cases i
      simp

/-- A spelling is read as the identifier that has its digits. -/
theorem parse_eq_ok_of_spelling (h : Spelling ds s) :
    parse k s = .ok i ↔ i.uuid.digits.map Text.hexDigit = ds.map Char.toLower := by
  obtain ⟨ns, hns⟩ := exists_values h.digits
  have hread := ofChars?_eq_some_iff.mpr ⟨ds, ns, h.spells, h.length, hns, rfl⟩
  have hmap := map_digits_ofDigits hns h.length
  rw [parse_eq_ok_iff, hread, Option.some_inj]
  constructor
  · intro he
    rw [← he, hmap]
  · intro he
    exact eq_of_map_digits (hmap.trans he.symm)

theorem exists_parse_iff : (∃ i, parse k s = .ok i) ↔ ∃ ds, Spelling ds s := by
  constructor
  · rintro ⟨i, hi⟩
    obtain ⟨ds, ns, hs, hlen, hns, _⟩ := ofChars?_eq_some_iff.mp (parse_eq_ok_iff.mp hi)
    exact ⟨ds, hlen, fun c hc => hns.isDigit hc, hs⟩
  · rintro ⟨ds, h⟩
    obtain ⟨ns, hns⟩ := exists_values h.digits
    exact ⟨⟨ofDigits ns⟩, (parse_eq_ok_of_spelling h).mpr (map_digits_ofDigits hns h.length)⟩

/-- How identifiers of a kind are read. -/
structure ReadsExactly (k : IdKind) : Prop where
  round_trip : ∀ i : Id k, parse k i.text = .ok i
  /-- The spellings of 32 digits are read, and nothing else. -/
  accepts : ∀ s, (∃ i, parse k s = .ok i) ↔ ∃ ds, Spelling ds s
  /-- Two texts are read alike if they spell the same digits, in either case. -/
  same : ∀ {s t ds es i j}, Spelling ds s → Spelling es t → parse k s = .ok i →
    parse k t = .ok j → (i = j ↔ ds.map Char.toLower = es.map Char.toLower)
  /-- What has been read is written in groups of the same digits, and read again. -/
  again : ∀ {s ds i}, Spelling ds s → parse k s = .ok i →
    Hyphenated (ds.map Char.toLower) i.text.toList ∧ parse k i.text = .ok i
  /-- A refusal begins with the name of the kind. -/
  refuses : ∀ s, (¬ ∃ ds, Spelling ds s) →
    parse k s = .error (.invalidId (k.name ++ ": " ++ (faultOf s.toList).message))

/-- Identifiers are read from the spellings of 32 digits and from nothing else, not even with blanks
around them, and two spellings are one identifier if and only if their digits are the same. -/
theorem reads_exactly (k : IdKind) : ReadsExactly k where
  round_trip := parse_text
  accepts _ := exists_parse_iff
  same {s t ds es i j} hs ht hi hj := by
    rw [← (parse_eq_ok_of_spelling hs).mp hi, ← (parse_eq_ok_of_spelling ht).mp hj]
    constructor
    · rintro rfl
      rfl
    · intro h
      cases i
      cases j
      exact congrArg Id.mk (eq_of_map_digits h)
  again {s ds i} hs hi := by
    refine ⟨hyphenated_iff.mpr ⟨by rw [List.length_map, hs.length], ?_⟩, parse_text i⟩
    rw [← (parse_eq_ok_of_spelling hs).mp hi, text, Uuid.text, String.toList_ofList]
    rfl
  refuses s hs := by
    cases hparse : parse k s with
    | ok i => exact absurd (exists_parse_iff.mp ⟨i, hparse⟩) hs
    | error e =>
        unfold parse Uuid.parse at hparse
        cases hread : ofChars? s.toList with
        | none =>
            rw [hread] at hparse
            exact hparse.symm
        | some u =>
            rw [hread] at hparse
            cases hparse

end Billing.Id
