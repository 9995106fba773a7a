import MulticastRelay.Frame.Basic

/-! # Hop counts

Every relay lowers the hop count of an IP frame by one and refuses a frame whose count would reach
zero. The header checksum of IPv4 is brought up to date from the one word that changed.
-/
namespace MulticastRelay

/-- What lowering the hop count of a frame came to. -/
inductive HopCount where
  | lowered (hops : UInt8)
  | expired
  | notIP
deriving DecidableEq, Repr

namespace HopCount

/-- One's complement of a sixteen-bit word. -/
def complement (w : Nat) : Nat := 65535 - w

/-- Adds the carry of a sum back to its low word. -/
def fold (s : Nat) : Nat := s % 65536 + s / 65536

/-- The checksum after one summed word changes from `old` to `new`. -/
def updateChecksum (check old new : Nat) : Nat :=
  complement (fold (fold (complement check + complement old + new)) % 65536)

def highOctet (w : Nat) : UInt8 := UInt8.ofNat (w / 256)
def lowOctet (w : Nat) : UInt8 := UInt8.ofNat (w % 256)

end HopCount

namespace Frame

/-- Positions of the fields of an IPv4 header without options. -/
def timeToLiveAt : Nat := headerLength + 8
def checksumAt : Nat := headerLength + 10
def minimumIPv4 : Nat := headerLength + 20

/-- Positions of the fields of an IPv6 header. -/
def hopLimitAt : Nat := headerLength + 7
def minimumIPv6 : Nat := headerLength + 40

/-- Lowers an IPv4 time to live and adjusts the header checksum. -/
def lowerTimeToLive (f : Frame) : HopCount × Frame :=
  let ttl := f.getD timeToLiveAt 0
  if ttl ≤ 1 then (.expired, f)
  else
    let protocol := f.getD (timeToLiveAt + 1) 0
    let check := word (f.getD checksumAt 0) (f.getD (checksumAt + 1) 0)
    let sum := HopCount.updateChecksum check (word ttl protocol) (word (ttl - 1) protocol)
    (.lowered (ttl - 1),
      ((f.set timeToLiveAt (ttl - 1)).set checksumAt (HopCount.highOctet sum)).set
        (checksumAt + 1) (HopCount.lowOctet sum))

/-- Lowers an IPv6 hop limit. -/
def lowerHopLimit (f : Frame) : HopCount × Frame :=
  let hops := f.getD hopLimitAt 0
  if hops ≤ 1 then (.expired, f) else (.lowered (hops - 1), f.set hopLimitAt (hops - 1))

/-- Lowers the hop count of an IP frame; any other frame, and one too short for its header, is
left alone. -/
def lowerHopCount (f : Frame) : HopCount × Frame :=
  if f.etherType? = some typeIPv4 ∧ minimumIPv4 ≤ f.length then f.lowerTimeToLive
  else if f.etherType? = some typeIPv6 ∧ minimumIPv6 ≤ f.length then f.lowerHopLimit
  else (.notIP, f)

end Frame
end MulticastRelay
