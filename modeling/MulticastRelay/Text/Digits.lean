/-! # Digits

Digit values, unsigned numerals with an optional plus sign, and hexadecimal output.
-/
namespace MulticastRelay.Text

/-- The value of a digit in bases up to sixteen, either case. -/
def digitValue? (c : Char) : Option Nat :=
  if '0' ≤ c ∧ c ≤ '9' then some (c.toNat - '0'.toNat)
  else if 'a' ≤ c ∧ c ≤ 'f' then some (c.toNat - 'a'.toNat + 10)
  else if 'A' ≤ c ∧ c ≤ 'F' then some (c.toNat - 'A'.toNat + 10)
  else none

/-- A digit of the given base. -/
def digitBelow? (base : Nat) (c : Char) : Option Nat :=
  (digitValue? c).filter (· < base)

/-- The value of a run of digits, most significant first; `none` at a character that is no digit. -/
def digitsValue? (base : Nat) (cs : List Char) : Option Nat :=
  cs.foldlM (fun acc c => (digitBelow? base c).map (acc * base + ·)) 0

/-- An unsigned numeral: an optional plus sign, then at least one digit, with value below `bound`. -/
def unsigned? (base bound : Nat) (cs : List Char) : Option Nat :=
  let digits := match cs with
    | '+' :: rest => rest
    | _ => cs
  if digits.isEmpty then none else (digitsValue? base digits).filter (· < bound)

/-- The lower-case digit of a value below sixteen. -/
def hexDigit (n : Nat) : Char :=
  if n < 10 then Char.ofNat ('0'.toNat + n) else Char.ofNat ('a'.toNat + n - 10)

/-- The `width` lowest hexadecimal digits of a number, most significant first. -/
def hexDigits : Nat → Nat → List Char
  | 0, _ => []
  | width + 1, n => hexDigits width (n / 16) ++ [hexDigit (n % 16)]

/-- An octet as two hexadecimal digits. -/
def octetDigits (b : UInt8) : List Char := hexDigits 2 b.toNat

/-- Octets from pairs of hexadecimal digits; a pair that holds another character counts as zero, and a
single last character is dropped. -/
def octetsOfDigits : List Char → List UInt8
  | a :: b :: rest => UInt8.ofNat ((digitsValue? 16 [a, b]).getD 0) :: octetsOfDigits rest
  | _ => []

end MulticastRelay.Text
