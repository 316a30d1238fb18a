import Billing.Json.Basic
import Billing.Json.Lexer
import Billing.Proofs.Text.Digits

/-!
# Tokens are read back from their characters

Strings of any characters and whole numbers of 64 bits are read back from what they are written as,
and so is a sequence of tokens in which only marks and closing brackets follow numbers.
-/

namespace Billing.Json

open Text

variable {cs rest : List Char} {c : Char} {n : Nat}

/-! ## Strings -/

theorem fourDigits?_escapedCode (h : n < 256) :
    fourDigits? '0' '0' (hexDigit (n / 16)) (hexDigit (n % 16)) = some n := by
  have hhigh := hexDigit?_hexDigit (n := n / 16) (by omega)
  have hlow := hexDigit?_hexDigit (n := n % 16) (by omega)
  have hzero : hexDigit? '0' = some 0 := rfl
  simp only [fourDigits?, hhigh, hlow, hzero, Option.bind_eq_bind, Option.bind_some]
  congr 1
  omega

/-- Another code follows. -/
def StartsCode (cs : List Char) : Prop :=
  ∃ e f g h rest, cs = '\\' :: 'u' :: e :: f :: g :: h :: rest

theorem readQuoted_code {e f g h : Char} (hs : ¬ StartsCode cs) :
    readQuoted ('\\' :: 'u' :: e :: f :: g :: h :: cs) = (fourDigits? e f g h).bind fun n =>
      if isHighSurrogate n || isLowSurrogate n then
        (readQuoted cs).map fun q => { q with sound := false }
      else (readQuoted cs).map (.cons (Char.ofNat n)) := by
  rw [readQuoted]
  · cases fourDigits? e f g h <;> rfl
  · exact fun e f g h rest heq => hs ⟨e, f, g, h, rest, heq⟩

/-- A string ends in a fault where four digits are none. -/
theorem readQuoted_of_fourDigits? {e f g h : Char} (hm : fourDigits? e f g h = none) :
    readQuoted ('\\' :: 'u' :: e :: f :: g :: h :: cs) = none := by
  by_cases hs : StartsCode cs
  · obtain ⟨e', f', g', h', rest, rfl⟩ := hs
    rw [readQuoted, hm]
  · rw [readQuoted_code hs, hm, Option.bind_none]

/-- The code of a control character is read back, also in front of another code. -/
theorem readQuoted_escapedCode (h : c.toNat < 32) (rest : List Char) :
    readQuoted (escapedCode c.toNat ++ rest) = (readQuoted rest).map (.cons c) := by
  have hcode := fourDigits?_escapedCode (n := c.toNat) (by omega)
  have hhigh : isHighSurrogate c.toNat = false := by
    simp [isHighSurrogate]
    omega
  have hlow : isLowSurrogate c.toNat = false := by
    simp [isLowSurrogate]
    omega
  simp only [escapedCode, List.cons_append, List.nil_append]
  by_cases hs : StartsCode rest
  · -- Two codes are read together, in case they are halves of one character.
    obtain ⟨e, f, g, h, rest, rfl⟩ := hs
    rw [readQuoted, hcode]
    cases hm : fourDigits? e f g h with
    | none => rw [readQuoted_of_fourDigits? hm]; rfl
    | some m => simp [hhigh, hlow]
  · rw [readQuoted_code hs, hcode]
    simp [hhigh, hlow]

theorem readQuoted_escapeChar (c : Char) (rest : List Char) :
    readQuoted (escapeChar c ++ rest) = (readQuoted rest).map (.cons c) := by
  unfold escapeChar
  -- Seven characters have an escape of two characters.
  iterate 7
    split
    · subst_vars
      simp [readQuoted, shortEscape?]
  split
  · exact readQuoted_escapedCode ‹_› rest
  · simp [readQuoted, *]

theorem readQuoted_flatMap (cs rest : List Char) :
    readQuoted (cs.flatMap escapeChar ++ '"' :: rest) = some ⟨true, cs, rest⟩ := by
  induction cs with
  | nil => rfl
  | cons c cs ih =>
      rw [List.flatMap_cons, List.append_assoc, readQuoted_escapeChar, ih]
      rfl

theorem readToken_quote (s : String) (rest : List Char) :
    readToken (quote s ++ rest) = (.string s, rest) := by
  have hquote : quote s ++ rest = '"' :: (s.toList.flatMap escapeChar ++ '"' :: rest) := by
    simp [quote]
  rw [hquote, readToken, readQuoted_flatMap]
  simp

/-! ## Whole numbers -/

/-- What follows belongs to no number. -/
def Ends (cs : List Char) : Prop :=
  ∀ c ∈ cs.head?, c.isDigit = false ∧ c ≠ '.' ∧ c ≠ 'e' ∧ c ≠ 'E'

theorem Ends.stops (h : Ends rest) : Stops rest := fun c hc => (h c hc).1

theorem head?_toDigits_ne (h : 0 < n) : (Nat.toDigits 10 n).head? ≠ some '0' := by
  induction n using Nat.strongRecOn with
  | _ n ih =>
      by_cases hn : n < 10
      · rw [Nat.toDigits_of_lt_base hn]
        have hall : ∀ d : Fin 10, 0 < d.val → d.val.digitChar ≠ '0' := by decide
        simpa using hall ⟨n, hn⟩ h
      · have hhead := ih (n / 10) (by omega) (by omega)
        obtain ⟨d, ds, hd⟩ := List.exists_cons_of_ne_nil (Nat.toDigits_ne_nil (n := n / 10) (b := 10))
        rw [Nat.toDigits_of_base_le (by decide) (by omega), hd]
        rw [hd] at hhead
        exact hhead

/-- Digits are appended one by one up to a number of 64 bits. -/
theorem appendDigits_eq {ds : List Char} (k : Nat) (hd : ∀ c ∈ ds, c.isDigit = true)
    (h : Nat.ofDigitChars 10 ds k < 0x10000000000000000) :
    appendDigits k ds = (Nat.ofDigitChars 10 ds k, []) := by
  induction ds generalizing k with
  | nil => rfl
  | cons c ds ih =>
      rw [Nat.ofDigitChars_cons] at h ⊢
      -- More digits make no number smaller, so every one of them fits.
      have hle : 10 * k + (c.toNat - '0'.toNat) ≤
          Nat.ofDigitChars 10 ds (10 * k + (c.toNat - '0'.toNat)) := by
        rw [Nat.ofDigitChars_eq_ofDigitChars_zero]
        have hpos : 0 < 10 ^ ds.length := Nat.pow_pos (by decide)
        exact Nat.le_add_right_of_le (Nat.le_mul_of_pos_left _ hpos)
      rw [appendDigits]
      simp only [if_pos (Nat.lt_of_le_of_lt hle h)]
      exact ih _ (fun c hc => hd c (List.mem_cons_of_mem _ hc)) h

/-- The sign of a number, and its digits. -/
def signed (negative : Bool) (n : Nat) : List Char :=
  (if negative then ['-'] else []) ++ Nat.toDigits 10 n

theorem Ends.readFractionPart? (h : Ends rest) : readFractionPart? rest = some (none, rest) := by
  cases rest with
  | nil => rfl
  | cons c cs =>
      obtain ⟨-, hdot, -, -⟩ := h c rfl
      simp [Json.readFractionPart?, hdot]

theorem Ends.readExponentPart? (h : Ends rest) : readExponentPart? rest = some (none, rest) := by
  cases rest with
  | nil => rfl
  | cons c cs =>
      obtain ⟨-, -, hsmall, hlarge⟩ := h c rfl
      simp [Json.readExponentPart?, hsmall, hlarge]

theorem readLiteral?_signed (negative : Bool) (n : Nat) (h : Ends rest) :
    readLiteral? (signed negative n ++ rest) =
      some (⟨negative, Nat.toDigits 10 n, none, none⟩, rest) := by
  have hn := numeral_toDigits n
  have hstart : ¬ ((Nat.toDigits 10 n).isEmpty = true ∨
      (Nat.toDigits 10 n).head? = some '0' ∧ (Nat.toDigits 10 n).length ≠ 1) := by
    rintro (hempty | ⟨hzero, hlen⟩)
    · exact hn.nonempty (List.isEmpty_iff.mp hempty)
    · cases n with
      | zero => exact hlen rfl
      | succ n => exact head?_toDigits_ne (Nat.succ_pos n) hzero
  cases negative with
  | true =>
      show readLiteral? ('-' :: (Nat.toDigits 10 n ++ rest)) = _
      rw [readLiteral?]
      simp only [splitDigits, hn.takeWhile_append h.stops, hn.dropWhile_append h.stops, if_neg hstart,
        h.readFractionPart?, h.readExponentPart?, Option.bind_eq_bind, Option.bind_some]
  | false =>
      show readLiteral? (Nat.toDigits 10 n ++ rest) = _
      rw [readLiteral?]
      · simp only [splitDigits, hn.takeWhile_append h.stops, hn.dropWhile_append h.stops,
          if_neg hstart, h.readFractionPart?, h.readExponentPart?, Option.bind_eq_bind,
          Option.bind_some]
      · exact hn.append_ne_cons rfl

/-- A number of 64 bits, with a sign or without. -/
def IsWord (i : Int) : Prop := -0x8000000000000000 ≤ i ∧ i < 0x10000000000000000

theorem chars_integer (i : Int) : (Number.integer i).chars = signed (i < 0) i.natAbs := by
  cases i with
  | ofNat m =>
      show (m.repr).toList = _
      simp [Nat.repr_eq_ofList_toDigits, signed]
  | negSucc m =>
      show ("-" ++ (m + 1).repr).toList = _
      simp [Nat.repr_eq_ofList_toDigits, signed]

theorem integer?_signed {i : Int} (h : IsWord i) :
    Literal.integer? ⟨i < 0, Nat.toDigits 10 i.natAbs, none, none⟩ = some i := by
  obtain ⟨hlow, hhigh⟩ := h
  have hdigits := numeral_toDigits i.natAbs
  have happend := appendDigits_eq 0 hdigits.digits (by rw [hdigits.value]; omega)
  rw [hdigits.value] at happend
  simp only [Literal.integer?, happend, Option.isSome_none, Bool.false_eq_true, or_self, if_false,
    decide_eq_true_eq]
  split
  · rw [if_pos (by omega)]
    congr 1
    omega
  · congr 1
    omega

theorem signed_append_ne {negative : Bool} {c : Char} (hd : c.isDigit = false) (hs : c ≠ '-')
    (cs : List Char) : signed negative n ++ rest ≠ c :: cs := by
  cases negative with
  | true => exact fun heq => hs (List.cons.inj heq).1.symm
  | false => exact (numeral_toDigits n).append_ne_cons hd cs

theorem readToken_integer {i : Int} (hi : IsWord i) (hr : Ends rest) :
    readToken ((Number.integer i).chars ++ rest) = (.number (.integer i), rest) := by
  rw [chars_integer, readToken, readLiteral?_signed _ _ hr]
  · simp only [Literal.token, integer?_signed hi]
  all_goals exact fun cs => signed_append_ne rfl (by decide) _

/-! ## Sequences of tokens -/

/-- A bracket, a mark, a name, a string or a whole number of 64 bits. -/
def Token.IsPlain : Token → Prop
  | .number (.integer i) => IsWord i
  | .number (.double _) => False
  | .vastNumber => False
  | .brokenString => False
  | .fault => False
  | _ => True

def Token.isNumber : Token → Bool
  | .number _ => true
  | _ => false

/-- A mark, or a closing bracket or brace. -/
def Token.isMark : Token → Bool
  | .closeBrace => true
  | .closeBracket => true
  | .colon => true
  | .comma => true
  | _ => false

variable {t : Token} {ts : List Token}

theorem Token.ends_of_isMark (h : t.isMark = true) (rest : List Char) : Ends (t.chars ++ rest) := by
  cases t <;> simp [isMark] at h <;> simp [Ends, chars]

/-- A token is read back from its characters, a number in front of what belongs to no number. -/
theorem readToken_chars (ht : t.IsPlain) (hr : t.isNumber = true → Ends rest) :
    readToken (t.chars ++ rest) = (t, rest) := by
  cases t with
  | number x =>
      cases x with
      | integer i => exact readToken_integer ht (hr rfl)
      | double x => exact ht.elim
  | string s => exact readToken_quote s rest
  | boolean b => cases b <;> rfl
  | vastNumber => exact ht.elim
  | brokenString => exact ht.elim
  | fault => exact ht.elim
  | _ => rfl

theorem isSpace_of_isDigit (h : c.isDigit = true) : isSpace c = false := by
  have hne (d : Char) (hd : d.isDigit = false) : (c == d) = false := by
    rw [beq_eq_false_iff_ne]
    rintro rfl
    rw [h] at hd
    cases hd
  simp only [isSpace, hne ' ' rfl, hne '\n' rfl, hne '\r' rfl, hne '\t' rfl, Bool.or_self]

theorem Token.IsPlain.exists_chars (h : t.IsPlain) : ∃ c cs, t.chars = c :: cs ∧ isSpace c = false := by
  cases t with
  | number x =>
      cases x with
      | integer i =>
          obtain ⟨d, ds, hd⟩ := List.exists_cons_of_ne_nil (numeral_toDigits i.natAbs).nonempty
          have hdigit := (numeral_toDigits i.natAbs).digits d (hd ▸ List.mem_cons_self)
          have hchars : (Token.number (.integer i)).chars = _ := chars_integer i
          rw [hchars, signed, hd]
          split
          · exact ⟨'-', _, rfl, rfl⟩
          · exact ⟨d, ds, rfl, isSpace_of_isDigit hdigit⟩
      | double x => exact h.elim
  | boolean b => cases b <;> exact ⟨_, _, rfl, rfl⟩
  | vastNumber => exact h.elim
  | brokenString => exact h.elim
  | fault => exact h.elim
  | _ => exact ⟨_, _, rfl, rfl⟩

/-- Only marks and closing brackets follow numbers. -/
def Apart : List Token → Prop
  | [] => True
  | t :: ts => (t.isNumber = true → ∀ u ∈ ts.head?, u.isMark = true) ∧ Apart ts

theorem tokensWithin_flatMap {ts : List Token} (hp : ∀ t ∈ ts, t.IsPlain) (ha : Apart ts) (n : Nat)
    (hn : (ts.flatMap Token.chars).length ≤ n) : tokensWithin n (ts.flatMap Token.chars) = ts := by
  induction ts generalizing n with
  | nil => cases n <;> rfl
  | cons t ts ih =>
      obtain ⟨ht, hts⟩ := List.forall_mem_cons.mp hp
      obtain ⟨hnext, htail⟩ := ha
      obtain ⟨c, cs, hc, hspace⟩ := ht.exists_chars
      have hends : t.isNumber = true → Ends (ts.flatMap Token.chars) := by
        intro hnumber
        cases ts with
        | nil => simp [Ends]
        | cons u us => exact u.ends_of_isMark (hnext hnumber u rfl) _
      have hread := readToken_chars ht hends
      rw [hc, List.cons_append] at hread
      rw [List.flatMap_cons, hc, List.cons_append, List.length_cons, List.length_append] at hn
      rw [List.flatMap_cons, hc, List.cons_append]
      cases n with
      | zero => omega
      | succ n =>
          -- No token starts with a blank, so none is skipped.
          rw [tokensWithin, List.dropWhile_cons_of_neg (by simp [hspace])]
          simp only [hread, ih hts htail n (by omega)]

/-- Plain tokens are read back from their text. -/
theorem lex_flatMap (hp : ∀ t ∈ ts, t.IsPlain) (ha : Apart ts) :
    lex (String.ofList (ts.flatMap Token.chars)) = ts := by
  simp only [lex, String.toList_ofList]
  exact tokensWithin_flatMap hp ha _ (Nat.le_refl _)

end Billing.Json
