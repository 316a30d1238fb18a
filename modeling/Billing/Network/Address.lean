import Billing.Text.Ascii

/-!
# Socket addresses

A host and a port. Hosts of sixteen-bit groups are written in their shortest form: small digits
without leading zeros, the first longest run of zero groups as two colons, and the embedded form
for hosts that stand for one of four octets.
-/

namespace Billing.Network

/-- A host of four octets. -/
structure Octets where
  first : UInt8
  second : UInt8
  third : UInt8
  fourth : UInt8
  deriving DecidableEq

/-- Where to listen: a host and a port. -/
inductive SocketAddress where
  | octets (host : Octets) (port : UInt16)
  /-- The scope tells apart the links of a host; it is zero where none is given. -/
  | groups (host : Vector UInt16 8) (scope : UInt32) (port : UInt16)
  deriving DecidableEq

/-- The written form of four octets. -/
def Octets.text (o : Octets) : String :=
  s!"{o.first.toNat}.{o.second.toNat}.{o.third.toNat}.{o.fourth.toNat}"

/-! ## Groups -/

/-- The octets that a host of groups stands for: five zero groups and one full group in front. -/
def embedded? : List UInt16 → Option Octets
  | [0, 0, 0, 0, 0, 0xffff, a, b] =>
    some ⟨(a >>> 8).toUInt8, a.toUInt8, (b >>> 8).toUInt8, b.toUInt8⟩
  | _ => none

/-- The number of zero groups in front. -/
def zerosInFront (gs : List UInt16) : Nat := (gs.takeWhile (· == 0)).length

/-- Start and length of the first longest run of zero groups. -/
def longestZeros : Nat → List UInt16 → Nat × Nat
  | i, [] => (i, 0)
  | i, g :: gs =>
    let here := zerosInFront (g :: gs)
    let later := longestZeros (i + 1) gs
    if later.2 ≤ here then (i, here) else later

/-- Groups with colons between them. -/
def joined (gs : List UInt16) : String :=
  ":".intercalate (gs.map fun g => String.ofList (Nat.toDigits 16 g.toNat))

/-- The written form of groups. -/
def groupsText (gs : List UInt16) : String :=
  match embedded? gs with
  | some o => "::ffff:" ++ o.text
  | none =>
    let (start, length) := longestZeros 0 gs
    if 1 < length then joined (gs.take start) ++ "::" ++ joined (gs.drop (start + length))
    else joined gs

/-- The written form of an address. -/
def SocketAddress.text : SocketAddress → String
  | .octets host port => host.text ++ s!":{port.toNat}"
  | .groups host scope port =>
    let scope := if scope = 0 then "" else s!"%{scope.toNat}"
    "[" ++ groupsText host.toList ++ scope ++ s!"]:{port.toNat}"

end Billing.Network
