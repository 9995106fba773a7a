/-! # Binary floating point, taken apart

A finite double is a sign and a magnitude `mantissa * 2 ^ exponent`. Everything that must be exact
about doubles starts from this form and goes on in whole numbers.
-/
namespace MulticastRelay.Decimal

/-- A non-negative number `mantissa * 2 ^ exponent`. -/
structure Magnitude where
  mantissa : Nat
  exponent : Int
deriving DecidableEq, Repr

namespace Magnitude

/-- Numerator of the magnitude as a fraction. -/
def numerator (m : Magnitude) : Nat := m.mantissa * Nat.pow 2 m.exponent.toNat

/-- Denominator of the magnitude as a fraction. -/
def denominator (m : Magnitude) : Nat := Nat.pow 2 (-m.exponent).toNat

theorem denominator_pos (m : Magnitude) : 0 < m.denominator := Nat.two_pow_pos _

end Magnitude

/-- What the bits of a double stand for. -/
inductive Reading where
  | finite (negative : Bool) (size : Magnitude)
  | infinite (negative : Bool)
  | nan
deriving DecidableEq, Repr

/-- Reads the bit pattern of a double. -/
def Reading.ofBits (bits : UInt64) : Reading :=
  let n := bits.toNat
  let negative := n / Nat.pow 2 63 == 1
  let biased := n / Nat.pow 2 52 % 2048
  let fraction := n % Nat.pow 2 52
  if biased = 2047 then if fraction = 0 then .infinite negative else .nan
  else if biased = 0 then .finite negative ⟨fraction, -1074⟩
  else .finite negative ⟨Nat.pow 2 52 + fraction, Int.ofNat biased - 1075⟩

def Reading.ofFloat (x : Float) : Reading := .ofBits x.toBits

/-- A double as its bit pattern, which keeps the sign even of what is not a number. -/
structure Binary64 where
  bits : UInt64
deriving DecidableEq, Repr

namespace Binary64

def ofFloat (x : Float) : Binary64 := ⟨x.toBits⟩

def toFloat (x : Binary64) : Float := .ofBits x.bits

def reading (x : Binary64) : Reading := .ofBits x.bits

def infinity : Binary64 := ⟨0x7ff0000000000000⟩

def nan : Binary64 := ⟨0x7ff8000000000000⟩

/-- The double of the other sign. -/
def neg (x : Binary64) : Binary64 := ⟨x.bits ^^^ 0x8000000000000000⟩

instance : Neg Binary64 := ⟨neg⟩

/-- Comparison by value: the two zeros are equal, and what is not a number equals nothing. -/
instance : BEq Binary64 := ⟨fun x y => x.toFloat == y.toFloat⟩

end Binary64

/-- A fraction rounded to the nearest whole number, a half going up. -/
def roundHalfUp (num den : Nat) : Nat := (2 * num + den) / (2 * den)

/-- A fraction rounded to the nearest whole number, a half going to the even neighbour. -/
def roundHalfEven (num den : Nat) : Nat :=
  let q := num / den
  let r := num % den
  if 2 * r < den then q
  else if den < 2 * r then q + 1
  else if q % 2 = 0 then q else q + 1

end MulticastRelay.Decimal
