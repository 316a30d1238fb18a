import Billing.Calendar.DateReader
import Billing.Calendar.Instant

/-!
# Timestamps

The written form of an instant: date, time of day, fraction of a second and offset from universal
time. The fraction has none, three, six or nine digits, the fewest that lose nothing.
-/

namespace Billing

namespace Instant

/-! ## Writing -/

/-- The fraction of a second, with the fewest of 0, 3, 6 and 9 digits. -/
def fractionText (nanos : Nat) : String :=
  if nanos = 0 then ""
  else if nanos % 1000000 = 0 then "." ++ Text.padded 3 (nanos / 1000000)
  else if nanos % 1000 = 0 then "." ++ Text.padded 6 (nanos / 1000)
  else "." ++ Text.padded 9 nanos

/-- Date and time of day in universal time. A leap second is second 60. -/
def clockText (t : Instant) : String :=
  let day := t.seconds / 86400
  let second := (t.seconds % 86400).toNat
  let (extra, nanos) := if t.nanos < 1000000000 then (0, t.nanos) else (1, t.nanos - 1000000000)
  (Civil.ofDayNumber day).text ++ "T" ++ Text.padded 2 (second / 3600) ++ ":"
    ++ Text.padded 2 (second / 60 % 60) ++ ":" ++ Text.padded 2 (second % 60 + extra)
    ++ fractionText nanos

/-- The timestamp of records and events, which ends in `Z`. -/
def stamp (t : Instant) : String := t.clockText ++ "Z"

/-- The timestamp with the offset of universal time spelt out. -/
def stampWithOffset (t : Instant) : String := t.clockText ++ "+00:00"

end Instant

namespace Calendar

open Text

/-! ## Reading -/

/-- Reads the fraction of a second in nanoseconds: digits after the ninth are dropped. -/
def readFraction? : List Char → Option (Nat × List Char)
  | '.' :: cs =>
    (readDigits? (some 9) cs).map fun (n, rest) =>
      (n * Nat.pow 10 (9 - (cs.length - rest.length)), rest.dropWhile Char.isDigit)
  | cs => some (0, cs)

/-- Two digits, the first of them at most `top`. -/
def readTwo? (top : Char) : List Char → Option (Nat × List Char)
  | a :: b :: cs =>
    if a.isDigit ∧ a ≤ top ∧ b.isDigit then
      some (10 * (a.toNat - '0'.toNat) + (b.toNat - '0'.toNat), cs)
    else none
  | _ => none

/-- Reads hours and minutes of an offset, in seconds; colons and blanks may stand between them. -/
def readShift? (cs : List Char) : Option (Int × List Char) := do
  let (hours, cs) ← readTwo? '9' cs
  let (minutes, cs) ← readTwo? '5' (cs.dropWhile fun c => c == ':' || isBlank c)
  some (hours * 3600 + minutes * 60, cs)

/-- Reads an offset from universal time: `UTC`, `Z`, or a sign with hours and minutes. -/
def readOffset? (cs : List Char) : Option (Int × List Char) :=
  if (cs.take 3).map Char.toLower = ['u', 't', 'c'] then some (0, cs.drop 3)
  else
    match cs with
    | [] => none
    | c :: rest =>
      if c = 'Z' ∨ c = 'z' then some (0, rest)
      else if c = '+' then readShift? rest
      else if c = '-' ∨ c = '\u2212' then (readShift? rest).map fun (n, rest) => (-n, rest)
      else none

/-- Reads the letter or blank between date and time of day. -/
def readSeparator? : List Char → Option (List Char)
  | c :: cs => if c = 'T' ∨ c = 't' ∨ c = ' ' then some cs else none
  | [] => none

/-- A date and a time of day at some offset from universal time. -/
structure Reading where
  civil : Civil
  hour : Nat
  minute : Nat
  second : Nat
  nanos : Nat
  offset : Int

/-- Reads date, time of day and offset. -/
def readTimestamp? (cs : List Char) : Option (Reading × List Char) := do
  let (civil, cs) ← readCivil? cs
  let cs ← readSeparator? cs
  let (hour, cs) ← readNumber? 2 cs
  let cs ← readMark? ':' cs
  let (minute, cs) ← readNumber? 2 cs
  let cs ← readMark? ':' cs
  let (second, cs) ← readNumber? 2 cs
  let (nanos, cs) ← readFraction? cs
  let (offset, cs) ← readOffset? (dropBlanks cs)
  some (⟨civil, hour, minute, second, nanos, offset⟩, cs)

/-- The instant of a reading, if its date, time of day and offset exist. -/
def Reading.instant? (r : Reading) : Option Instant :=
  if r.hour ≤ 23 ∧ r.minute ≤ 59 ∧ r.second ≤ 60 ∧ -86400 < r.offset ∧ r.offset < 86400 then
    match Date.ofCivil? r.civil with
    | none => none
    | some date =>
      let (second, nanos) := if r.second = 60 then (59, r.nanos + 1000000000) else (r.second, r.nanos)
      Instant.ofParts?
        (date.day * 86400 + (r.hour * 3600 + r.minute * 60 + second : Nat) - r.offset) nanos
  else none

end Calendar

/-- Reads a timestamp; nothing but blanks may follow it. -/
def Instant.parse? (s : String) : Option Instant :=
  match Calendar.readTimestamp? s.toList with
  | some (r, rest) => if rest.all Text.isBlank then r.instant? else none
  | none => none

end Billing
