import Billing.Json.Parser
import Billing.Proofs.Json.Tokens

/-!
# Values are read back

Every value that is not too deep is read back from its tokens, whatever tokens follow. Twice as much
fuel as there are tokens is enough: a value and what is around it take a call each. Without numbers
in double precision it is read back from its text.
-/

namespace Billing.Json

/-! ## Depth -/

mutual

/-- How many arrays and objects stand inside one another. -/
def depth : Json → Nat
  | .array items => itemsDepth items + 1
  | .object members => membersDepth members + 1
  | _ => 0

/-- The depth of the deepest item of an array. -/
def itemsDepth : List Json → Nat
  | [] => 0
  | v :: vs => max v.depth (itemsDepth vs)

/-- The depth of the deepest member of an object. -/
def membersDepth : List (String × Json) → Nat
  | [] => 0
  | (_, v) :: ms => max v.depth (membersDepth ms)

end

theorem depth_object_le {ms : List (String × Json)} {n : Nat} (h : ∀ m ∈ ms, m.2.depth ≤ n) :
    (Json.object ms).depth ≤ n + 1 := by
  refine Nat.succ_le_succ ?_
  induction ms with
  | nil => exact Nat.zero_le n
  | cons m ms ih =>
      obtain ⟨hm, hms⟩ := List.forall_mem_cons.mp h
      exact Nat.max_le.mpr ⟨hm, ih hms⟩

/-! ## Tokens -/

theorem exists_tokens (v : Json) :
    ∃ t ts, v.tokens = t :: ts ∧ t ≠ .closeBracket ∧ t ≠ .closeBrace := by
  cases v <;> exact ⟨_, _, rfl, by simp, by simp⟩

theorem readValue_openBracket {n room : Nat} {ts : List Token} (h : ∀ us, ts ≠ .closeBracket :: us) :
    readValue (n + 1) (room + 1) (.openBracket :: ts) =
      (readItems n room ts).map fun (vs, ts) => (.array vs, ts) := by
  cases ts with
  | nil => rfl
  | cons t ts =>
      cases t with
      | closeBracket => exact absurd rfl (h ts)
      | _ => rfl

theorem readValue_openBrace {n room : Nat} {ts : List Token} (h : ∀ us, ts ≠ .closeBrace :: us) :
    readValue (n + 1) (room + 1) (.openBrace :: ts) =
      (readMembers n room ts).map fun (ms, ts) => (.object ms, ts) := by
  cases ts with
  | nil => rfl
  | cons t ts =>
      cases t with
      | closeBrace => exact absurd rfl (h ts)
      | _ => rfl

-- The induction is on the fuel, which every call has one less of.
mutual

theorem readValue_tokens : ∀ (v : Json) (n room : Nat) (ts : List Token),
    2 * v.tokens.length ≤ n → v.depth ≤ room → readValue n room (v.tokens ++ ts) = some (v, ts)
  | v, 0, _, ts, h, _ => by
      obtain ⟨t, us, ht, -⟩ := v.exists_tokens
      simp [ht] at h
  | .null, n + 1, _, ts, _, _ => rfl
  | .boolean b, n + 1, _, ts, _, _ => rfl
  | .number x, n + 1, _, ts, _, _ => rfl
  | .string s, n + 1, _, ts, _, _ => rfl
  | .array _, n + 1, 0, ts, _, hd => nomatch hd
  | .object _, n + 1, 0, ts, _, hd => nomatch hd
  | .array [], n + 1, room + 1, ts, _, _ => rfl
  | .array (v :: vs), n + 1, room + 1, ts, h, hd => by
      have hlen : 2 * (itemTokens (v :: vs)).length ≤ n := by
        simp only [tokens, List.length_cons] at h
        omega
      have hroom : itemsDepth (v :: vs) ≤ room := Nat.le_of_succ_le_succ hd
      have hopen : ∀ us, itemTokens (v :: vs) ++ ts ≠ .closeBracket :: us := by
        obtain ⟨t, us, ht, hne, -⟩ := v.exists_tokens
        cases vs <;> simp [itemTokens, ht, hne]
      rw [tokens, List.cons_append, readValue_openBracket hopen,
        readItems_tokens v vs n room ts hlen hroom]
      rfl
  | .object [], n + 1, room + 1, ts, _, _ => rfl
  | .object ((k, v) :: ms), n + 1, room + 1, ts, h, hd => by
      have hlen : 2 * (memberTokens ((k, v) :: ms)).length ≤ n := by
        simp only [tokens, List.length_cons] at h
        omega
      have hroom : membersDepth ((k, v) :: ms) ≤ room := Nat.le_of_succ_le_succ hd
      have hopen : ∀ us, memberTokens ((k, v) :: ms) ++ ts ≠ .closeBrace :: us := by
        cases ms <;> simp [memberTokens]
      rw [tokens, List.cons_append, readValue_openBrace hopen,
        readMembers_tokens k v ms n room ts hlen hroom]
      rfl

theorem readItems_tokens : ∀ (v : Json) (vs : List Json) (n room : Nat) (ts : List Token),
    2 * (itemTokens (v :: vs)).length ≤ n → itemsDepth (v :: vs) ≤ room →
    readItems n room (itemTokens (v :: vs) ++ ts) = some (v :: vs, ts)
  | v, vs, 0, _, ts, h, _ => by cases vs <;> simp [itemTokens] at h
  | v, [], n + 1, room, ts, h, hd => by
      simp only [itemTokens, List.length_append, List.length_singleton] at h
      obtain ⟨hdv, -⟩ := Nat.max_le.mp hd
      have hv := readValue_tokens v n room (.closeBracket :: ts) (by omega) hdv
      simp only [itemTokens, List.append_assoc, List.singleton_append, readItems, hv]
  | v, w :: vs, n + 1, room, ts, h, hd => by
      simp only [itemTokens, List.length_append, List.length_cons] at h
      obtain ⟨hdv, hdvs⟩ := Nat.max_le.mp hd
      have hv := readValue_tokens v n room (.comma :: (itemTokens (w :: vs) ++ ts)) (by omega) hdv
      have hvs := readItems_tokens w vs n room ts (by omega) hdvs
      simp only [itemTokens, List.append_assoc, List.cons_append, readItems, hv, hvs,
        Option.map_some]

theorem readMembers_tokens : ∀ (k : String) (v : Json) (ms : List (String × Json)) (n room : Nat)
    (ts : List Token), 2 * (memberTokens ((k, v) :: ms)).length ≤ n →
    membersDepth ((k, v) :: ms) ≤ room →
    readMembers n room (memberTokens ((k, v) :: ms) ++ ts) = some ((k, v) :: ms, ts)
  | k, v, ms, 0, _, ts, h, _ => by cases ms <;> simp [memberTokens] at h
  | k, v, [], n + 1, room, ts, h, hd => by
      simp only [memberTokens, List.length_append, List.length_cons] at h
      obtain ⟨hdv, -⟩ := Nat.max_le.mp hd
      have hv := readValue_tokens v n room (.closeBrace :: ts) (by omega) hdv
      simp only [memberTokens, List.append_assoc, List.cons_append, List.nil_append, readMembers, hv]
  | k, v, (l, w) :: ms, n + 1, room, ts, h, hd => by
      simp only [memberTokens, List.length_append, List.length_cons] at h
      obtain ⟨hdv, hdms⟩ := Nat.max_le.mp hd
      have hv := readValue_tokens v n room (.comma :: (memberTokens ((l, w) :: ms) ++ ts))
        (by omega) hdv
      have hms := readMembers_tokens l w ms n room ts (by omega) hdms
      simp only [memberTokens, List.append_assoc, List.cons_append, readMembers, hv, hms,
        Option.map_some]

end

/-- A value is what its tokens hold. -/
theorem ofTokens?_tokens {v : Json} (h : v.depth ≤ maxDepth) : ofTokens? v.tokens = some v := by
  have hread := readValue_tokens v (2 * v.tokens.length) maxDepth [] (Nat.le_refl _) h
  rw [List.append_nil] at hread
  rw [ofTokens?, hread]

/-! ## Texts -/

/-- Nothing follows, or a mark. -/
def BeforeMark (ts : List Token) : Prop := ∀ t ∈ ts.head?, t.isMark = true

theorem apart_cons {t : Token} {ts : List Token} (ht : t.isNumber = false) (h : Apart ts) :
    Apart (t :: ts) := ⟨fun hn => (by simp [ht] at hn), h⟩

mutual

theorem apart_tokens : ∀ (v : Json) (ts : List Token), Apart ts → BeforeMark ts →
    Apart (v.tokens ++ ts)
  | .null, _, h, _ => apart_cons rfl h
  | .boolean _, _, h, _ => apart_cons rfl h
  | .number _, _, h, hm => ⟨fun _ => hm, h⟩
  | .string _, _, h, _ => apart_cons rfl h
  | .array vs, ts, h, _ => apart_cons rfl (apart_itemTokens vs ts h)
  | .object ms, ts, h, _ => apart_cons rfl (apart_memberTokens ms ts h)

theorem apart_itemTokens : ∀ (vs : List Json) (ts : List Token), Apart ts →
    Apart (itemTokens vs ++ ts)
  | [], _, h => apart_cons rfl h
  | [v], ts, h => by
      rw [itemTokens, List.append_assoc]
      exact apart_tokens v _ (apart_cons rfl h) (by simp [BeforeMark, Token.isMark])
  | v :: w :: vs, ts, h => by
      simp only [itemTokens, List.append_assoc, List.cons_append]
      exact apart_tokens v _ (apart_cons rfl (apart_itemTokens (w :: vs) ts h))
        (by simp [BeforeMark, Token.isMark])

theorem apart_memberTokens : ∀ (ms : List (String × Json)) (ts : List Token), Apart ts →
    Apart (memberTokens ms ++ ts)
  | [], _, h => apart_cons rfl h
  | [(k, v)], ts, h => by
      have hv := apart_tokens v (.closeBrace :: ts) (apart_cons rfl h)
        (by simp [BeforeMark, Token.isMark])
      simp only [memberTokens, List.cons_append, List.append_assoc, List.nil_append]
      exact apart_cons rfl (apart_cons rfl hv)
  | (k, v) :: m :: ms, ts, h => by
      have hv := apart_tokens v (.comma :: (memberTokens (m :: ms) ++ ts))
        (apart_cons rfl (apart_memberTokens (m :: ms) ts h)) (by simp [BeforeMark, Token.isMark])
      simp only [memberTokens, List.cons_append, List.append_assoc]
      exact apart_cons rfl (apart_cons rfl hv)

end

/-- A value whose numbers are whole numbers of 64 bits. -/
def IsPlain (v : Json) : Prop := ∀ t ∈ v.tokens, t.IsPlain

theorem isPlain_null : Json.null.IsPlain := by simp [IsPlain, tokens, Token.IsPlain]

theorem isPlain_string (s : String) : (Json.string s).IsPlain := by
  simp [IsPlain, tokens, Token.IsPlain]

theorem isPlain_int {n : Int} (h : IsWord n) : (Json.int n).IsPlain := by
  simpa [IsPlain, int, tokens, Token.IsPlain] using h

theorem isPlain_memberTokens {ms : List (String × Json)} (h : ∀ m ∈ ms, m.2.IsPlain) :
    ∀ t ∈ memberTokens ms, t.IsPlain := by
  induction ms with
  | nil => simp [memberTokens, Token.IsPlain]
  | cons m ms ih =>
      obtain ⟨hm, hms⟩ := List.forall_mem_cons.mp h
      intro t ht
      cases ms with
      | nil =>
          simp only [memberTokens, List.cons_append, List.mem_cons, List.mem_append,
            List.not_mem_nil, or_false] at ht
          rcases ht with rfl | rfl | ht | rfl
          · trivial
          · trivial
          · exact hm t ht
          · trivial
      | cons m' ms =>
          simp only [memberTokens, List.cons_append, List.mem_cons, List.mem_append] at ht
          rcases ht with rfl | rfl | ht | rfl | ht
          · trivial
          · trivial
          · exact hm t ht
          · trivial
          · exact ih hms t ht

theorem isPlain_object {ms : List (String × Json)} (h : ∀ m ∈ ms, m.2.IsPlain) :
    (Json.object ms).IsPlain := by
  intro t ht
  rcases List.mem_cons.mp ht with rfl | ht
  · trivial
  · exact isPlain_memberTokens h t ht

/-- A value is read back from its text. -/
theorem parse?_text {v : Json} (h : v.IsPlain) (hd : v.depth ≤ maxDepth) :
    parse? v.text = some v := by
  have hapart := apart_tokens v [] trivial (by simp [BeforeMark])
  rw [List.append_nil] at hapart
  rw [parse?, text, lex_flatMap h hapart, ofTokens?_tokens hd]

end Billing.Json
