import MulticastRelay.Text.Digits
import MulticastRelay.Text.Fields

/-! # Link addresses

Addresses of six octets, written as two-digit hexadecimal fields between colons. Reading is wider than
writing: a field may have a plus sign, any number of leading zeros and either case.
-/
namespace MulticastRelay

/-- A link-layer address. -/
structure LinkAddress where
  octets : List UInt8
  length_octets : octets.length = 6 := by rfl
deriving DecidableEq, Repr

namespace LinkAddress

def ofOctets? (bs : List UInt8) : Option LinkAddress :=
  if h : bs.length = 6 then some ⟨bs, h⟩ else none

/-- The all-zero address. -/
def zero : LinkAddress := ⟨[0, 0, 0, 0, 0, 0], rfl⟩

instance : Inhabited LinkAddress := ⟨zero⟩

/-- Group and broadcast addresses have the lowest bit of their first octet set. -/
def isMulticast (a : LinkAddress) : Bool := a.octets.headD 0 % 2 == 1

def toChars (a : LinkAddress) : List Char := Text.join ':' (a.octets.map Text.octetDigits)

/-- The written form, such as `01:00:5e:00:00:fb`. -/
def render (a : LinkAddress) : String := String.ofList a.toChars

/-- One field of a written address. -/
def field? (cs : List Char) : Option UInt8 := (Text.unsigned? 16 256 cs).map UInt8.ofNat

def ofChars? (cs : List Char) : Option LinkAddress := do
  ofOctets? (← (Text.fields ':' cs).mapM field?)

/-- Reads six colon-separated fields. -/
def parse? (text : String) : Option LinkAddress := ofChars? text.toList

end LinkAddress
end MulticastRelay
