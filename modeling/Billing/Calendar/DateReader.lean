import Billing.Calendar.Date
import Billing.Text.Blank

/-!
# Reading dates

A date is a year, a month and a day with hyphens between them. Blanks may stand before each number
and each hyphen. A year of more than four digits needs a sign; month and day have one or two
digits.
-/

namespace Billing.Calendar

open Text

/-- Reads at least one and at most `width` digits; no limit if there is no width. -/
def readDigits? (width : Option Nat) (cs : List Char) : Option (Nat × List Char) :=
  let ds := cs.takeWhile Char.isDigit
  let ds := match width with
    | some w => ds.take w
    | none => ds
  if ds.isEmpty then none
  else some (ds.foldl (fun n c => 10 * n + (c.toNat - '0'.toNat)) 0, cs.drop ds.length)

/-- Reads a number of at most `width` digits after blanks. -/
def readNumber? (width : Nat) (cs : List Char) : Option (Nat × List Char) :=
  readDigits? (some width) (dropBlanks cs)

/-- Reads a year after blanks: up to four digits, or any number of digits after a sign. -/
def readYear? (cs : List Char) : Option (Int × List Char) :=
  match dropBlanks cs with
  | '-' :: rest => (readDigits? none rest).map fun (n, rest) => (-(n : Int), rest)
  | '+' :: rest => (readDigits? none rest).map fun (n, rest) => ((n : Int), rest)
  | rest => (readDigits? (some 4) rest).map fun (n, rest) => ((n : Int), rest)

/-- Reads one given character after blanks. -/
def readMark? (mark : Char) (cs : List Char) : Option (List Char) :=
  match dropBlanks cs with
  | c :: rest => if c = mark then some rest else none
  | [] => none

/-- Reads a year, a month and a day; whether they exist is not asked yet. -/
def readCivil? (cs : List Char) : Option (Civil × List Char) := do
  let (year, cs) ← readYear? cs
  let cs ← readMark? '-' cs
  let (month, cs) ← readNumber? 2 cs
  let cs ← readMark? '-' cs
  let (day, cs) ← readNumber? 2 cs
  some (⟨year, month, day⟩, cs)

end Billing.Calendar

namespace Billing.Date

/-- Reads a date that exists and is in range; nothing but blanks may follow it. -/
def parse? (s : String) : Option Date :=
  match Calendar.readCivil? s.toList with
  | some (c, rest) => if rest.all Text.isBlank then ofCivil? c else none
  | none => none

end Billing.Date
