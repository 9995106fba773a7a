import MulticastRelay.LinkAddress

/-! # Link frames

A frame is its octets. The header starts with the destination and source addresses, followed by the
type of the payload.
-/
namespace MulticastRelay

/-- Octets of a link frame, first octet first. -/
abbrev Frame := List UInt8

namespace Frame

/-- Length of the link header. -/
def headerLength : Nat := 14

/-- The `len` octets from `start`, if the frame reaches that far. -/
def slice? (f : Frame) (start len : Nat) : Option (List UInt8) :=
  if start + len ≤ f.length then some ((f.drop start).take len) else none

/-- The value of two octets, high octet first. -/
def word (hi lo : UInt8) : Nat := hi.toNat * 256 + lo.toNat

/-- The sixteen-bit word at an offset. -/
def word? (f : Frame) (start : Nat) : Option Nat := do
  word (← f[start]?) (← f[start + 1]?)

def destination? (f : Frame) : Option LinkAddress := f.slice? 0 6 >>= LinkAddress.ofOctets?

def source? (f : Frame) : Option LinkAddress := f.slice? 6 6 >>= LinkAddress.ofOctets?

/-- The frame with its source address replaced; a frame too short to have one is left alone. -/
def setSource (f : Frame) (a : LinkAddress) : Frame :=
  if 12 ≤ f.length then f.take 6 ++ a.octets ++ f.drop 12 else f

/-- Whether the frame is long enough to have a source address. -/
def hasSource (f : Frame) : Bool := 12 ≤ f.length

/-- The payload type of the link header. -/
def etherType? (f : Frame) : Option Nat := f.word? 12

def typeIPv4 : Nat := 0x0800
def typeARP : Nat := 0x0806
def typeIPv6 : Nat := 0x86DD

end Frame
end MulticastRelay
