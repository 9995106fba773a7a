import MulticastRelay.Decimal.Binary

/-! # Shortest decimals

The fewest decimal digits that read back as the same double, and of those the nearest, the larger one
where two are equally near. Reading back means lying in the interval of numbers that round to the double; its ends count when the mantissa is
even.
-/
namespace MulticastRelay.Decimal

/-- A decimal `digits * 10 ^ scale`. -/
structure Digits where
  digits : Nat
  scale : Int
deriving DecidableEq, Repr

/-- The numbers that round to a double: from `low` to `high` over a common denominator, around
`value`, ends included when `closed`. -/
structure Neighbourhood where
  low : Nat
  value : Nat
  high : Nat
  denominator : Nat
  closed : Bool
deriving DecidableEq, Repr

/-- The interval of numbers that round to `m`. Below a power of two the spacing halves. -/
def Magnitude.neighbourhood (m : Magnitude) : Neighbourhood :=
  let power := m.mantissa = Nat.pow 2 52 ∧ -1074 < m.exponent
  let below := if power then 1 else 2
  let unit := Nat.pow 2 m.exponent.toNat
  { low := (4 * m.mantissa - below) * unit
    value := 4 * m.mantissa * unit
    high := (4 * m.mantissa + 2) * unit
    denominator := 4 * m.denominator
    closed := m.mantissa % 2 == 0 }

namespace Neighbourhood

/-- Whether `n * 10 ^ scale` rounds to the double. -/
def holds (r : Neighbourhood) (d : Digits) : Bool :=
  let n := d.digits * Nat.pow 10 d.scale.toNat * r.denominator
  let unit := Nat.pow 10 (-d.scale).toNat
  if r.closed then r.low * unit ≤ n && n ≤ r.high * unit
  else r.low * unit < n && n < r.high * unit

/-- The neighbour of the value on the grid of multiples of `10 ^ scale` that rounds to the double;
the nearer one if both do, the larger one at equal distance. -/
def onGrid? (r : Neighbourhood) (scale : Int) : Option Digits :=
  let num := r.value * Nat.pow 10 (-scale).toNat
  let den := r.denominator * Nat.pow 10 scale.toNat
  let down : Digits := ⟨num / den, scale⟩
  let up : Digits := ⟨num / den + 1, scale⟩
  match r.holds down, r.holds up with
  | true, true => some ⟨roundHalfUp num den, scale⟩
  | true, false => some down
  | false, true => some up
  | false, false => none

/-- The first hit on grids that get finer from `scale` down. -/
def search (r : Neighbourhood) : Nat → Int → Digits
  | 0, scale =>
    ⟨roundHalfUp (r.value * Nat.pow 10 (-scale).toNat) (r.denominator * Nat.pow 10 scale.toNat),
      scale⟩
  | steps + 1, scale =>
    match r.onGrid? scale with
    | some d => d
    | none => r.search steps (scale - 1)

end Neighbourhood

/-- Number of decimal digits of a number. -/
def decimalLength (n : Nat) : Nat := (Nat.toDigits 10 n).length

/-- A power of ten at least as large as the magnitude. -/
def Magnitude.topScale (m : Magnitude) : Int :=
  if 0 ≤ m.exponent then decimalLength m.numerator
  else (decimalLength (m.numerator / m.denominator + 1) : Int)

/-- The shortest decimal of a magnitude that is not zero: seventeen digits always suffice, found on
the grids between the magnitude's own size and the finest spacing of doubles. -/
def Magnitude.shortest (m : Magnitude) : Digits :=
  m.neighbourhood.search 1100 m.topScale

end MulticastRelay.Decimal
