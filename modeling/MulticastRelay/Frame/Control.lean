import MulticastRelay.Frame.Basic

/-! # Control traffic

Which frames carry control traffic: address resolution, group membership, neighbour discovery, and
datagrams on the port that ad-hoc routing protocols share. Control frames overtake ordinary ones.
-/
namespace MulticastRelay.Frame

def protocolIGMP : UInt8 := 2
def protocolUDP : UInt8 := 17
def protocolICMPv6 : UInt8 := 58

/-- The port shared by ad-hoc routing protocols. -/
def routingPort : Nat := 698

/-- The upper protocol of an IP frame and the offset of its header. -/
def upperLayer? (f : Frame) : Option (UInt8 × Nat) := do
  let kind ← f.etherType?
  if kind = typeIPv4 then
    let lead ← f[headerLength]?
    let protocol ← f[headerLength + 9]?
    return (protocol, headerLength + lead.toNat % 16 * 4)
  else if kind = typeIPv6 then
    let protocol ← f[headerLength + 6]?
    return (protocol, headerLength + 40)
  else none

def protocol? (f : Frame) : Option UInt8 := f.upperLayer?.map (·.1)

/-- Group membership traffic of IPv4. -/
def isIGMP (f : Frame) : Bool := f.etherType? == some typeIPv4 && f.protocol? == some protocolIGMP

/-- Whether a datagram whose header is at `offset` uses the routing port at either end. -/
def usesRoutingPort (f : Frame) (offset : Nat) : Bool :=
  match f.word? offset, f.word? (offset + 2) with
  | some src, some dst => src == routingPort || dst == routingPort
  | _, _ => false

/-- Whether the frame carries control traffic. -/
def isControl (f : Frame) : Bool :=
  if f.etherType? = some typeARP then true
  else match f.upperLayer? with
    | none => false
    | some (protocol, offset) =>
      if protocol = protocolIGMP then f.etherType? == some typeIPv4
      else if protocol = protocolICMPv6 then f.etherType? == some typeIPv6
      else protocol == protocolUDP && f.usesRoutingPort offset

end MulticastRelay.Frame
