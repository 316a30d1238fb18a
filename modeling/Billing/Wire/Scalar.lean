import Billing.Amount
import Billing.Calendar.Rfc3339
import Billing.ControlTag
import Billing.Identifier
import Billing.Json.Decode

/-!
# Scalars as JSON

Identifiers, dates, timestamps, amounts and tags as JSON values.
-/

namespace Billing

namespace Id

variable {k : IdKind}

/-- An identifier as JSON. -/
def toJson (i : Id k) : Json := .string i.text

/-- Reads an identifier in any of its spellings. -/
def ofJson? (v : Json) : Option (Id k) := v.string?.bind fun s => (parse k s).toOption

end Id

/-- Reads an identifier that names no kind of thing. -/
def Uuid.ofJson? (v : Json) : Option Uuid := v.string?.bind fun s => (Uuid.parse s).toOption

/-- A date as JSON. -/
def Date.toJson (d : Date) : Json := .string d.text

/-- A timestamp as JSON. -/
def Instant.toJson (t : Instant) : Json := .string t.stamp

/-- Reads a timestamp. -/
def Instant.ofJson? (v : Json) : Option Instant := v.string?.bind Instant.parse?

/-- An amount as JSON. -/
def Amount.toJson (a : Amount) : Json := .int a.value

/-- Reads an amount. -/
def Amount.ofJson? : Json → Option Amount
  | .number (.integer n) => Amount.ofInt? n
  | _ => none

namespace ControlTag

/-- A tag as JSON. -/
def toJson (t : ControlTag) : Json := .string t.name

/-- Reads a tag; the case of its letters counts. -/
def ofJson? (v : Json) : Option ControlTag := v.name?.bind ofName?

end ControlTag

namespace ControlTagSet

/-- A set of tags as the list of its members. -/
def toJson (s : ControlTagSet) : Json := .array (s.toList.map ControlTag.toJson)

/-- Reads a set from a list of tags, which may repeat. -/
def ofJson? (v : Json) : Option ControlTagSet := (v.list? ControlTag.ofJson?).map ofList

end ControlTagSet

end Billing
