import Billing.Uuid.Basic

/-!
# Reading identifiers

Four spellings are read: 32 hexadecimal digits, the hyphenated form, that form in braces, and that
form after `urn:uuid:`. Digits and the word in front may be in either case. Every other text has
one fault, which tells what a reader would stumble over first.
-/

namespace Billing.Uuid

/-- Why a text is no identifier. Lengths and positions count bytes. -/
inductive Fault where
  | length (found : Nat)
  | character (found : Char) (position : Nat)
  | groupCount (found : Nat)
  | groupLength (group expected found : Nat)
  deriving DecidableEq

/-- The wording of a fault. -/
def Fault.message : Fault → String
  | .length found => s!"invalid length: found {found}"
  | .character found position =>
    "invalid character: found `" ++ found.toString ++ s!"` at {position}"
  | .groupCount found => s!"invalid group count: expected 5, found {found}"
  | .groupLength group expected found =>
    s!"invalid group length in group {group}: expected {expected}, found {found}"

/-! ## The four spellings -/

/-- Reads exactly `k` hexadecimal digits. -/
def readDigits : Nat → List Char → Option (List Nat × List Char)
  | 0, cs => some ([], cs)
  | _ + 1, [] => none
  | k + 1, c :: cs =>
    match Text.hexDigit? c, readDigits k cs with
    | some d, some (ds, rest) => some (d :: ds, rest)
    | _, _ => none

/-- Reads groups of digits of the given sizes, with a hyphen between two groups. -/
def readGroups : List Nat → List Char → Option (List Nat × List Char)
  | [], cs => some ([], cs)
  | [k], cs => readDigits k cs
  | k :: ks, cs =>
    match readDigits k cs with
    | some (ds, '-' :: rest) => (readGroups ks rest).map fun (es, rest) => (ds ++ es, rest)
    | _ => none

/-- Reads the whole text as groups of digits. -/
def ofGroups? (sizes : List Nat) (cs : List Char) : Option Uuid :=
  match readGroups sizes cs with
  | some (ds, []) => some (ofDigits ds)
  | _ => none

/-- The word in front of an identifier that is written as a resource name. -/
def resourcePrefix : List Char := "urn:uuid:".toList

/-- What follows the word of a resource name, if the text starts with it in either case. -/
def afterResourcePrefix? (cs : List Char) : Option (List Char) :=
  if (cs.take 9).map Char.toLower = resourcePrefix then some (cs.drop 9) else none

/-- What stands between the braces, if the text starts and ends with one. -/
def betweenBraces? : List Char → Option (List Char)
  | '\x7b' :: cs => if cs.getLast? = some '\x7d' then some cs.dropLast else none
  | _ => none

/-- The number of bytes of a text. -/
def byteLength (cs : List Char) : Nat := cs.foldl (fun n c => n + c.utf8Size) 0

/-- The part that is tried as a hyphenated form, chosen by the length and what surrounds it. -/
def hyphenatedPart? (cs : List Char) : Option (List Char) :=
  match byteLength cs with
  | 36 => some cs
  | 38 => betweenBraces? cs
  | 45 => afterResourcePrefix? cs
  | _ => none

/-- Reads one of the four spellings. -/
def ofChars? (cs : List Char) : Option Uuid :=
  if byteLength cs = 32 then ofGroups? [32] cs
  else (hyphenatedPart? cs).bind (ofGroups? groupSizes)

/-! ## The fault of any other text -/

/-- The first character that is neither a digit nor a hyphen, with its position. -/
def strayCharacter? : Nat → List Char → Option (Char × Nat)
  | _, [] => none
  | i, c :: cs =>
    if (Text.hexDigit? c).isSome || c == '-' then strayCharacter? (i + c.utf8Size) cs
    else some (c, i)

/-- The positions of the hyphens. -/
def hyphenPositions : Nat → List Char → List Nat
  | _, [] => []
  | i, c :: cs =>
    if c = '-' then i :: hyphenPositions (i + 1) cs else hyphenPositions (i + c.utf8Size) cs

/-- The first of the first four groups whose hyphen stands elsewhere than it should. -/
def misplacedGroup? : Nat → List Nat → List (Nat × Nat × Nat) → Option Fault
  | _, [], _ => none
  | _, _, [] => none
  | i, h :: hs, (start, stop, size) :: gs =>
    if h = stop then misplacedGroup? (i + 1) hs gs else some (.groupLength i size (h - start))

/-- Start, end and size of the first four groups. -/
def groupBounds : List (Nat × Nat × Nat) := [(0, 8, 8), (9, 13, 4), (14, 18, 4), (19, 23, 4)]

/-- The fault of a body that stands at an offset in a text of the given length. -/
def bodyFault (hyphens : Bool) (length offset : Nat) (body : List Char) : Fault :=
  match strayCharacter? offset body with
  | some (c, i) => .character c i
  | none =>
    let hs := hyphenPositions 0 body
    if hs = [] ∧ !hyphens then .length length
    else if hs.length ≠ 4 then .groupCount (hs.length + 1)
    else (misplacedGroup? 0 hs groupBounds).getD (.groupLength 4 12 (length - 24))

/-- The fault of a text that has none of the four spellings. -/
def faultOf (cs : List Char) : Fault :=
  let length := byteLength cs
  if length = 0 ∨ 45 < length then .length length
  else
    match hyphenatedPart? cs with
    | some part => bodyFault true (byteLength part) 0 part
    | none =>
      match betweenBraces? cs with
      | some body => bodyFault true length 1 body
      | none =>
        match afterResourcePrefix? cs with
        | some body => bodyFault true length 9 body
        | none => bodyFault false length 0 cs

/-- Reads an identifier, or tells the fault of the text. -/
def parse (s : String) : Except Fault Uuid :=
  match ofChars? s.toList with
  | some u => .ok u
  | none => .error (faultOf s.toList)

end Billing.Uuid
