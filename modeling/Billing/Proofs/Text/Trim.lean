import Billing.Text.Ascii
import Billing.Text.Blank

/-!
# Texts between blanks

A text without the blanks at its ends is the one text that neither begins nor ends with a blank and
that blanks around it make into the text again.
-/

namespace Billing.Text

variable {cs front back : List Char} {s t : String}

/-- Blanks only. -/
def Blanks (cs : List Char) : Prop := ∀ c ∈ cs, isBlank c = true

/-- No blank at either end. -/
structure Bare (cs : List Char) : Prop where
  first : ∀ c ∈ cs.head?, isBlank c = false
  last : ∀ c ∈ cs.getLast?, isBlank c = false

/-- A text is another one between blanks, and that one has none at its ends. -/
structure Holds (s t : String) : Prop where
  bare : Bare t.toList
  around : ∃ front back, Blanks front ∧ Blanks back ∧ s.toList = front ++ t.toList ++ back

theorem bare_nil : Bare [] := ⟨nofun, nofun⟩

theorem dropBlanks_of_first (h : ∀ c ∈ cs.head?, isBlank c = false) : dropBlanks cs = cs := by
  cases cs with
  | nil => rfl
  | cons c cs => simp [dropBlanks, h c rfl]

theorem first_dropBlanks (cs : List Char) : ∀ c ∈ (dropBlanks cs).head?, isBlank c = false := by
  intro c hc
  have h := List.head?_dropWhile_not isBlank cs
  rw [dropBlanks] at hc
  rw [Option.mem_def.mp hc] at h
  exact h

theorem dropBlanks_append_blanks (h : Blanks front) (cs : List Char) :
    dropBlanks (front ++ cs) = dropBlanks cs := List.dropWhile_append_of_pos h

theorem dropBlanks_blanks (h : Blanks cs) : dropBlanks cs = [] := by
  rw [← List.append_nil cs, dropBlanks_append_blanks h]
  rfl

theorem blanks_reverse (h : Blanks cs) : Blanks cs.reverse := fun c hc =>
  h c (List.mem_reverse.mp hc)

theorem exists_dropBlanks (cs : List Char) : ∃ front, Blanks front ∧ cs = front ++ dropBlanks cs :=
  ⟨cs.takeWhile isBlank, List.all_eq_true.mp List.all_takeWhile,
    List.takeWhile_append_dropWhile.symm⟩

theorem Bare.reverse (h : Bare cs) : Bare cs.reverse :=
  ⟨by simpa using h.last, by simpa using h.first⟩

theorem Bare.trimChars (h : Bare cs) : trimChars cs = cs := by
  rw [Text.trimChars, dropBlanks_of_first h.first, dropBlanks_of_first h.reverse.first,
    List.reverse_reverse]

/-- Blanks in front and behind are cut off. -/
theorem trimChars_append (hf : Blanks front) (hb : Blanks back) (cs : List Char) :
    trimChars (front ++ cs ++ back) = trimChars cs := by
  have happend : dropBlanks (cs ++ back) =
      if (dropBlanks cs).isEmpty then dropBlanks back else dropBlanks cs ++ back :=
    List.dropWhile_append
  rw [trimChars, trimChars, List.append_assoc, dropBlanks_append_blanks hf, happend]
  split
  · next hempty => rw [dropBlanks_blanks hb, List.isEmpty_iff.mp hempty]
  · rw [List.reverse_append, dropBlanks_append_blanks (blanks_reverse hb)]

theorem holds_trim (s : String) : Holds s (trim s) := by
  obtain ⟨front, hfront, hs⟩ := exists_dropBlanks s.toList
  obtain ⟨back, hback, hrev⟩ := exists_dropBlanks (dropBlanks s.toList).reverse
  have hmid : dropBlanks s.toList = trimChars s.toList ++ back.reverse := by
    rw [← List.reverse_reverse (dropBlanks s.toList), hrev, List.reverse_append]
    rfl
  have htrim : (trim s).toList = trimChars s.toList := String.toList_ofList
  refine ⟨⟨?_, ?_⟩, front, back.reverse, hfront, blanks_reverse hback, ?_⟩
  · rw [htrim]
    intro c hc
    refine first_dropBlanks s.toList c ?_
    rw [hmid, List.head?_append, Option.mem_def.mp hc, Option.some_or]
    rfl
  · rw [htrim, trimChars, List.getLast?_reverse]
    exact first_dropBlanks _
  · rw [htrim, List.append_assoc, ← hmid, ← hs]

/-- What a text holds is the text without the blanks at its ends. -/
theorem holds_iff : Holds s t ↔ trim s = t := by
  constructor
  · rintro ⟨hbare, front, back, hf, hb, hs⟩
    rw [trim, hs, trimChars_append hf hb, hbare.trimChars, String.ofList_toList]
  · rintro rfl
    exact holds_trim s

theorem allBlank_iff : allBlank s = true ↔ trim s = "" := by
  rw [← holds_iff, allBlank, List.all_eq_true]
  constructor
  · intro h
    exact ⟨bare_nil, s.toList, [], h, nofun, by simp⟩
  · rintro ⟨-, front, back, hf, hb, hs⟩ c hc
    rw [hs] at hc
    simp only [String.toList_empty, List.append_nil, List.mem_append] at hc
    exact hc.elim (hf c) (hb c)

theorem trim_trim (s : String) : trim (trim s) = trim s :=
  holds_iff.mp ⟨(holds_trim s).bare, [], [], nofun, nofun, by simp⟩

/-- More blanks around a text change nothing between them. -/
theorem trim_append {f b : String} (hf : Blanks f.toList) (hb : Blanks b.toList) (s : String) :
    trim (f ++ s ++ b) = trim s := by
  rw [trim, String.toList_append, String.toList_append, trimChars_append hf hb, trim]

/-! ## Upper and lower case -/

theorem sameIgnoringCase_iff : sameIgnoringCase s t = true ↔ lowercase s = lowercase t := by
  rw [sameIgnoringCase, beq_iff_eq, lowercase, lowercase, String.ofList_inj]

end Billing.Text
