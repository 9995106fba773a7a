import MulticastRelay.Decimal.Shortest

/-! # Decimal text of doubles

Two written forms: all shortest digits in positional notation, and a fixed number of decimal places.
-/
namespace MulticastRelay.Decimal

def naturalText (n : Nat) : String := String.ofList (Nat.toDigits 10 n)

/-- `digits * 10 ^ scale` in positional notation. -/
def Digits.positional (d : Digits) : String :=
  if 0 ≤ d.scale then naturalText (d.digits * Nat.pow 10 d.scale.toNat)
  else
    let places := (-d.scale).toNat
    let cs := Nat.toDigits 10 d.digits
    let padded := List.replicate (places + 1 - cs.length) '0' ++ cs
    String.ofList (padded.take (padded.length - places)) ++ "." ++
      String.ofList (padded.drop (padded.length - places))

/-- Drops trailing zeros of the digits. -/
def Digits.trim (d : Digits) : Digits :=
  go (decimalLength d.digits) d
where
  go : Nat → Digits → Digits
    | 0, d => d
    | n + 1, d => if d.digits % 10 = 0 then go n ⟨d.digits / 10, d.scale + 1⟩ else d

def signText (negative : Bool) : String := if negative then "-" else ""

/-- The shortest digits that read back, never with an exponent and without a needless fraction. -/
def shortestText (x : Float) : String :=
  match Reading.ofFloat x with
  | .nan => "NaN"
  | .infinite negative => signText negative ++ "inf"
  | .finite negative size =>
    signText negative ++ if size.mantissa = 0 then "0" else size.shortest.trim.positional

/-- The exact value rounded to one decimal place, a half going to the even neighbour. -/
def onePlaceText (x : Float) : String :=
  match Reading.ofFloat x with
  | .nan => "NaN"
  | .infinite negative => signText negative ++ "inf"
  | .finite negative size =>
    let tenths := roundHalfEven (size.numerator * 10) size.denominator
    signText negative ++ naturalText (tenths / 10) ++ "." ++ naturalText (tenths % 10)

end MulticastRelay.Decimal
