import Billing.Text.Ascii

/-!
# Media types

The type of a body as it stands in a header: two names with a slash between them, and parameters
after semicolons. The second name may end in a plus sign and the name of a format.
-/

namespace Billing.Http

/-- A media type without its parameters. -/
structure MediaType where
  type : String
  subtype : String
  /-- What follows the last plus sign of the second name. -/
  suffix : Option String
  deriving DecidableEq

namespace MediaType

/-- The characters of a name. -/
def isNameChar (c : Char) : Bool := c.isAlphanum || "!#$%&'*+-.^_\x60|~".contains c

/-- The characters between quotes. -/
def isQuotable (c : Char) : Bool := 32 ≤ c.toNat && c.toNat != 127

/-! ## Parameters -/

/-- Where a reader of parameters stands. -/
inductive Place where
  /-- A parameter may start. -/
  | start
  | name
  /-- An equals sign has been read. -/
  | value
  | unquoted
  /-- A quote has been read. -/
  | opening
  | quoted
  | closed
  | fault
  deriving DecidableEq

/-- Where a reader stands after one more character. -/
def Place.next : Place → Char → Place
  | .start, c => if c = ' ' then .start else if isNameChar c then .name else .fault
  | .name, c => if c = '=' then .value else if isNameChar c then .name else .fault
  | .value, c => if c = '"' then .opening else if isNameChar c then .unquoted else .fault
  | .unquoted, c => if c = ';' then .start else if isNameChar c then .unquoted else .fault
  | .opening, c => if isQuotable c then .quoted else .fault
  | .quoted, c => if c = '"' then .closed else if isQuotable c then .quoted else .fault
  | .closed, c => if c = ';' then .start else if c = ' ' then .closed else .fault
  | .fault, _ => .fault

/-- The text may end at a place. -/
def Place.isEnd : Place → Bool
  | .start => true
  | .value => true
  | .unquoted => true
  | .closed => true
  | _ => false

/-- The characters after the first semicolon are parameters. -/
def areParameters (cs : List Char) : Bool := (cs.foldl Place.next .start).isEnd

/-! ## Reading -/

/-- The second name, without its suffix if it has one: something stands before the plus sign. -/
def ofNames (type second : List Char) : MediaType :=
  let suffix := (second.reverse.takeWhile (· ≠ '+')).reverse
  let before := ((second.reverse.dropWhile (· ≠ '+')).drop 1).reverse
  let type := Text.lowercase (String.ofList type)
  if before = [] then ⟨type, Text.lowercase (String.ofList second), none⟩
  else
    ⟨type, Text.lowercase (String.ofList before), some (Text.lowercase (String.ofList suffix))⟩

/-- Reads a media type; its case does not count. -/
def parse? (s : String) : Option MediaType :=
  match s.toList.span isNameChar with
  | (type, '/' :: cs) =>
    let (second, rest) := cs.span isNameChar
    if type = [] ∨ second = [] then none
    else
      match rest with
      | [] => some (ofNames type second)
      | ';' :: ps => if areParameters ps then some (ofNames type second) else none
      | _ => none
  | _ => none

/-- A body of this type is JSON. -/
def isJson (m : MediaType) : Bool :=
  m.type == "application" && (m.subtype == "json" || m.suffix == some "json")

end MediaType

end Billing.Http
