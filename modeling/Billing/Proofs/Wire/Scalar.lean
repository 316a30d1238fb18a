import Billing.Proofs.Calendar.Timestamp
import Billing.Proofs.Json.Members
import Billing.Proofs.Uuid.Spelling
import Billing.Wire.Scalar

/-!
# Scalars are read back

Identifiers, dates, timestamps, amounts and tags are read back from what they are written as.
-/

namespace Billing

open Json (Reads)

theorem Id.reads {k : IdKind} (i : Id k) : Reads ofJson? i.toJson i where
  ne_null := fun h => by cases h
  read := by simp [ofJson?, toJson, Json.string?, parse_text, Except.toOption]

theorem Uuid.reads (u : Uuid) : Reads ofJson? (.string u.text) u where
  ne_null := fun h => by cases h
  read := by simp [ofJson?, Json.string?, parse_text, Except.toOption]

theorem Instant.reads (t : Instant) : Reads ofJson? t.toJson t where
  ne_null := fun h => by cases h
  read := by simp [ofJson?, toJson, Json.string?, t.parse?_stamp]

theorem Amount.reads (a : Amount) : Reads ofJson? a.toJson a where
  ne_null := fun h => by cases h
  read := by simp [ofJson?, toJson, Json.int]

/-- Reads a date. -/
def Date.ofJson? (v : Json) : Option Date := v.string?.bind parse?

theorem Date.reads (d : Date) : Reads ofJson? d.toJson d where
  ne_null := fun h => by cases h
  read := by simp [ofJson?, toJson, Json.string?, d.parse?_text]

theorem ControlTagSet.reads (s : ControlTagSet) : Reads ofJson? s.toJson s where
  ne_null := fun h => by cases h
  read := by
    obtain ⟨a, b, c⟩ := s
    cases a <;> cases b <;> cases c <;> rfl

end Billing
