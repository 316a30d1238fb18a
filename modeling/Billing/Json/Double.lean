/-!
# Numbers of double precision

A number of double precision is a mantissa of at most 53 bits times a power of two. Products and
quotients are rounded to the nearest such number, and written down as the shortest decimal that no
other number is nearer to.
-/

namespace Billing.Json

/-- The whole number next to a fraction; of two that are equally near, the even one. -/
def nearestWhole (numerator denominator : Nat) : Nat :=
  let q := numerator / denominator
  let r := numerator % denominator
  if denominator < 2 * r ∨ (2 * r = denominator ∧ q % 2 = 1) then q + 1 else q

theorem nearestWhole_one (n : Nat) : nearestWhole n 1 = n := by simp [nearestWhole, Nat.mod_one]

/-- A magnitude of double precision: the mantissa times two to the exponent. -/
structure Magnitude where
  mantissa : Nat
  exponent : Int
  deriving DecidableEq

namespace Magnitude

/-! ## Rounding -/

/-- The exponent of the smallest magnitudes. -/
def leastExponent : Int := -1074

/-- The exponent of the largest magnitudes. -/
def greatestExponent : Int := 971

/-- Nothing. -/
def zero : Magnitude := ⟨0, leastExponent⟩

/-- The exponent at which the mantissa of a fraction has 53 bits, or the least exponent. -/
def exponentOf (numerator denominator : Nat) : Int :=
  let d : Int := numerator.log2 - denominator.log2
  let d := if denominator * Nat.pow 2 d.toNat ≤ numerator * Nat.pow 2 (-d).toNat then d else d - 1
  max (d - 52) leastExponent

/-- The magnitude next to a fraction, if it is within the range. -/
def nearest? (numerator denominator : Nat) : Option Magnitude :=
  if numerator = 0 then some zero
  else
    let e := exponentOf numerator denominator
    let m := nearestWhole (numerator * Nat.pow 2 (-e).toNat) (denominator * Nat.pow 2 e.toNat)
    let f : Magnitude := if m = 0x20000000000000 then ⟨0x10000000000000, e + 1⟩ else ⟨m, e⟩
    if f.exponent ≤ greatestExponent then some f else none

/-- The numerator of a magnitude as a fraction. -/
def numerator (f : Magnitude) : Nat := f.mantissa * Nat.pow 2 f.exponent.toNat

/-- The denominator of a magnitude as a fraction. -/
def denominator (f : Magnitude) : Nat := Nat.pow 2 (-f.exponent).toNat

/-- The product of two magnitudes, rounded. -/
def times? (f g : Magnitude) : Option Magnitude :=
  nearest? (f.numerator * g.numerator) (f.denominator * g.denominator)

/-- The quotient of two magnitudes, rounded. -/
def over? (f g : Magnitude) : Option Magnitude :=
  nearest? (f.numerator * g.denominator) (f.denominator * g.numerator)

/-- The exponent of the largest power of ten within the range. -/
def greatestPower : Nat := 308

/-- A power of ten, rounded. -/
def powerOfTen? (power : Nat) : Option Magnitude := nearest? (Nat.pow 10 power) 1

/-- A magnitude divided by the largest power of ten a number of times, each quotient rounded. -/
def lowered? : Nat → Magnitude → Option Magnitude
  | 0, f => some f
  | n + 1, f =>
    if f.mantissa = 0 then some f
    else ((powerOfTen? greatestPower).bind f.over?).bind (lowered? n)

/-- A magnitude times a power of ten. The power is rounded before the product or quotient is; a
power below the range is taken in steps, and a power above it is beyond the range. -/
def scaled? (f : Magnitude) (power : Int) : Option Magnitude :=
  if f.mantissa = 0 then some f
  else if greatestPower < power then none
  else if 0 ≤ power then (powerOfTen? power.toNat).bind f.times?
  else
    let p := (-power).toNat
    let steps := (p - 1) / greatestPower
    (lowered? steps f).bind fun g => (powerOfTen? (p - greatestPower * steps)).bind g.over?

/-- Nothing stays nothing, whatever the power of ten. -/
@[simp] theorem scaled?_zero (power : Int) : zero.scaled? power = some zero := by
  simp [scaled?, zero]

/-! ## Shortest decimals -/

/-- The multiple of the largest power of ten, up to a given one, that keeps to a range, next to a
number that does. -/
def coarsest (number : Nat) (keeps : Nat → Bool) : Nat → Nat × Nat
  | 0 => (number, 0)
  | t + 1 =>
    let step := Nat.pow 10 (t + 1)
    let near := nearestWhole number step
    let far := if near * step ≤ number then near + 1 else near - 1
    if keeps (near * step) then (near, t + 1)
    else if keeps (far * step) then (far, t + 1)
    else coarsest number keeps t

/-- The shortest decimal that rounds to a magnitude: a whole number and a power of ten. The numbers
that round to it reach half a step up and down, and half as far down from a power of two; those in
the middle of a step go to the even mantissa. -/
def shortest (f : Magnitude) : Nat × Int :=
  if f.mantissa = 0 then (0, 0)
  else
    let e := f.exponent - 2
    let quarter := Nat.pow 2 e.toNat * Nat.pow 5 (-e).toNat
    let down := if f.mantissa = 0x10000000000000 ∧ leastExponent < f.exponent then 1 else 2
    let low := (4 * f.mantissa - down) * quarter
    let high := (4 * f.mantissa + 2) * quarter
    let keeps (n : Nat) : Bool :=
      (low < n && n < high) || (f.mantissa % 2 == 0 && (n == low || n == high))
    let (digits, power) :=
      coarsest (4 * f.mantissa * quarter) keeps (Nat.toDigits 10 high).length
    (digits, power + min e 0)

end Magnitude

/-- A number of double precision. Zero has a sign, too. -/
structure Double where
  negative : Bool
  magnitude : Magnitude
  deriving DecidableEq

/-- The characters of a number: the shortest decimal, with a power of ten. -/
def Double.chars (x : Double) : List Char :=
  let (digits, power) := x.magnitude.shortest
  (if x.negative then ['-'] else []) ++ ((toString digits) ++ "e" ++ (toString power)).toList

end Billing.Json
