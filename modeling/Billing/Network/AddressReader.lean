import Billing.Network.Address

/-!
# Reading socket addresses

A host of octets is written with points, a host of groups in brackets with colons. Two colons stand
for one zero group or more, and the last two groups may be written as four octets.
-/

namespace Billing.Network

/-- How a number within an address is written. -/
structure Numeral where
  radix : Nat
  digit? : Char → Option Nat
  /-- The largest number of digits, if there is one. -/
  width : Option Nat
  /-- Whether a zero may stand in front of other digits. -/
  leadingZeros : Bool
  limit : Nat

/-- One of four octets: decimal, at most three digits, without leading zeros. -/
def octet : Numeral := ⟨10, Text.digit?, some 3, false, 255⟩

/-- One of eight groups: hexadecimal, at most four digits. -/
def group : Numeral := ⟨16, Text.hexDigit?, some 4, true, 65535⟩

/-- A port: decimal, any number of digits. -/
def port : Numeral := ⟨10, Text.digit?, none, true, 65535⟩

/-- A scope: decimal, any number of digits. -/
def scope : Numeral := ⟨10, Text.digit?, none, true, 4294967295⟩

/-- The digits in front, with the rest. -/
def Numeral.digits (n : Numeral) : List Char → List Nat × List Char
  | [] => ([], [])
  | c :: cs =>
    match n.digit? c with
    | some d =>
      let (ds, rest) := n.digits cs
      (d :: ds, rest)
    | none => ([], c :: cs)

/-- The number that digits stand for. -/
def Numeral.value (n : Numeral) (ds : List Nat) : Nat := ds.foldl (fun v d => n.radix * v + d) 0

/-- There are not too many digits. -/
def Numeral.fits (n : Numeral) (ds : List Nat) : Bool :=
  match n.width with
  | some w => decide (ds.length ≤ w)
  | none => true

/-- Reads all digits in front as a number. -/
def Numeral.read? (n : Numeral) (cs : List Char) : Option (Nat × List Char) :=
  let (ds, rest) := n.digits cs
  if ds ≠ [] ∧ n.fits ds ∧ (n.leadingZeros ∨ ds.head? ≠ some 0 ∨ ds.length = 1) ∧
      n.value ds ≤ n.limit then
    some (n.value ds, rest)
  else none

/-- Takes a given character from the front. -/
def mark? (c : Char) : List Char → Option (List Char)
  | d :: cs => if d = c then some cs else none
  | [] => none

/-- Reads four octets. -/
def readOctets? (cs : List Char) : Option (Octets × List Char) := do
  let (a, cs) ← octet.read? cs
  let (b, cs) ← octet.read? (← mark? '.' cs)
  let (c, cs) ← octet.read? (← mark? '.' cs)
  let (d, cs) ← octet.read? (← mark? '.' cs)
  some (⟨a.toUInt8, b.toUInt8, c.toUInt8, d.toUInt8⟩, cs)

/-- The two groups that four octets make. -/
def Octets.groups (o : Octets) : List UInt16 :=
  [o.first.toUInt16 <<< 8 ||| o.second.toUInt16, o.third.toUInt16 <<< 8 ||| o.fourth.toUInt16]

/-- Groups read so far: whether they end with octets, and the rest. -/
structure GroupsRead where
  groups : List UInt16
  endsWithOctets : Bool
  rest : List Char

/-- Reads as many groups as stand in front, up to a number; all but the first have a colon before
them. -/
def readGroups (first : Bool) : Nat → List Char → GroupsRead
  | 0, cs => ⟨[], false, cs⟩
  | room + 1, cs =>
    match if first then some cs else mark? ':' cs with
    | none => ⟨[], false, cs⟩
    | some body =>
      match if room = 0 then none else readOctets? body with
      | some (o, rest) => ⟨o.groups, true, rest⟩
      | none =>
        match group.read? body with
        | some (g, rest) =>
          let more := readGroups false room rest
          ⟨g.toUInt16 :: more.groups, more.endsWithOctets, more.rest⟩
        | none => ⟨[], false, cs⟩

/-- Eight groups as a host. -/
def hostOfGroups? (gs : List UInt16) : Option (Vector UInt16 8) :=
  if h : gs.toArray.size = 8 then some ⟨gs.toArray, h⟩ else none

/-- Reads a host of groups. -/
def readHost? (cs : List Char) : Option (Vector UInt16 8 × List Char) :=
  let head := readGroups true 8 cs
  match hostOfGroups? head.groups with
  | some host => some (host, head.rest)
  | none =>
    if head.endsWithOctets then none
    else do
      let cs ← mark? ':' head.rest
      let cs ← mark? ':' cs
      let tail := readGroups true (7 - head.groups.length) cs
      let zeros := 8 - head.groups.length - tail.groups.length
      let host ← hostOfGroups? (head.groups ++ List.replicate zeros 0 ++ tail.groups)
      some (host, tail.rest)

/-- Reads a colon and a port. -/
def readPort? (cs : List Char) : Option (UInt16 × List Char) := do
  let (p, cs) ← port.read? (← mark? ':' cs)
  some (p.toUInt16, cs)

/-- Reads a scope after a percent sign; zero if none stands in front. -/
def readScope (cs : List Char) : UInt32 × List Char :=
  match (mark? '%' cs).bind scope.read? with
  | some (s, rest) => (s.toUInt32, rest)
  | none => (0, cs)

/-- Reads an address with a host of octets. -/
def readOctetsAddress? (cs : List Char) : Option (SocketAddress × List Char) := do
  let (host, cs) ← readOctets? cs
  let (port, cs) ← readPort? cs
  some (.octets host port, cs)

/-- Reads an address with a host of groups. -/
def readGroupsAddress? (cs : List Char) : Option (SocketAddress × List Char) := do
  let (host, cs) ← readHost? (← mark? '[' cs)
  let (scope, cs) := readScope cs
  let (port, cs) ← readPort? (← mark? ']' cs)
  some (.groups host scope port, cs)

/-- Reads an address that is the whole text. -/
def SocketAddress.parse? (s : String) : Option SocketAddress :=
  match readOctetsAddress? s.toList <|> readGroupsAddress? s.toList with
  | some (a, []) => some a
  | _ => none

end Billing.Network
