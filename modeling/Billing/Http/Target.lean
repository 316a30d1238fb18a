import Billing.Text.Pieces

/-!
# Targets of requests

What a request is sent to. It is a path with a query, alone or after a scheme and an authority; or
it is an authority alone or an asterisk, which name no place. The query starts at the first question
mark. A number sign ends the target; what follows it is left to the client.
-/

namespace Billing.Http

/-! ## Authorities -/

/-- The characters of an authority that stand for themselves. -/
def isAuthorityChar (c : Char) : Bool := c.isAlphanum || "!$&'()*+,-.;=_~".contains c

/-- What a reader of an authority has seen. Colons and percent signs are counted from the last at
sign or closing bracket on. -/
structure AuthorityScan where
  colons : Nat
  percent : Bool
  opened : Bool
  closed : Bool
  /-- The last character was an at sign. -/
  atSign : Bool
  deriving DecidableEq

namespace AuthorityScan

/-- Nothing has been seen. -/
def start : AuthorityScan := ⟨0, false, false, false, false⟩

/-- Sees one more character. One pair of brackets may stand, without a percent sign before it, and
nine colons are too many even between brackets. -/
def next? (s : AuthorityScan) (c : Char) : Option AuthorityScan :=
  if c = '@' then some { s with colons := 0, percent := false, atSign := true }
  else if c = '[' then
    if s.percent || s.opened then none else some { s with opened := true, atSign := false }
  else if c = ']' then
    if !s.opened || s.closed then none
    else some { s with colons := 0, percent := false, closed := true, atSign := false }
  else if c = ':' then
    if s.colons < 8 then some { s with colons := s.colons + 1, atSign := false } else none
  else if c = '%' then some { s with percent := true, atSign := false }
  else if isAuthorityChar c then some { s with atSign := false }
  else none

/-- The authority may end: brackets are closed, a host is named, and no percent sign and one colon
at most stand in what names it. -/
def mayEnd (s : AuthorityScan) : Bool :=
  s.opened == s.closed && s.colons ≤ 1 && !s.percent && !s.atSign

end AuthorityScan

/-- The characters name an authority. -/
def isAuthority (cs : List Char) : Bool :=
  !cs.isEmpty && (cs.foldlM AuthorityScan.next? .start).any AuthorityScan.mayEnd

/-! ## Targets -/

/-- The target of a request: path and query as they were sent, with percent signs. -/
structure Target where
  path : String
  query : String
  deriving DecidableEq

namespace Target

/-- The greatest length in bytes. -/
def maxLength : Nat := 65534

/-- The greatest length of a scheme. -/
def maxSchemeLength : Nat := 64

/-- The characters of a scheme. -/
def isSchemeChar (c : Char) : Bool := c.isAlphanum || "+-.~".contains c

/-- The characters that may stand in a path as they are. -/
def isPathChar (c : Char) : Bool := 32 < c.toNat && !"<>\x60".contains c

/-- The characters that may stand in a query as they are. -/
def isQueryChar (c : Char) : Bool := 32 < c.toNat && !"<>\"".contains c

/-- Reads a path with a query. -/
def ofPlace? (cs : List Char) : Option Target :=
  let (path, query) := Text.cut '?' (Text.cut '#' cs).1
  if path.all isPathChar && query.all isQueryChar then
    some ⟨String.ofList path, String.ofList query⟩
  else none

/-- The target has no path, so it names no place. -/
def nowhere : Target := ⟨"", ""⟩

/-- What follows a scheme and two slashes, and the scheme, if one stands in front. -/
def splitScheme? (cs : List Char) : Option (List Char × List Char) :=
  match cs.dropWhile isSchemeChar with
  | ':' :: '/' :: '/' :: rest => some (cs.takeWhile isSchemeChar, rest)
  | _ => none

/-- Reads an authority with a path and a query. -/
def ofAuthority? (cs : List Char) : Option Target :=
  let (authority, place) := cs.span fun c => c ≠ '/' && c ≠ '?' && c ≠ '#'
  if isAuthority authority then ofPlace? place else none

/-- Reads a target. -/
def parse? (s : String) : Option Target :=
  if maxLength < s.utf8ByteSize then none
  else
    match s.toList with
    | ['*'] => some ⟨"*", ""⟩
    | '/' :: cs => ofPlace? ('/' :: cs)
    | cs =>
      match splitScheme? cs with
      | some (scheme, rest) =>
        if scheme.length ≤ maxSchemeLength then ofAuthority? rest else none
      | none => if isAuthority cs then some nowhere else none

end Target

end Billing.Http
