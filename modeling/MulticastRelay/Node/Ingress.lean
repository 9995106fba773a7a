import MulticastRelay.Frame.HopCount
import MulticastRelay.Node.Membership

/-! # Ingress

What becomes of a captured frame. It is dropped where capture is closed, where group membership traffic
is blocked, and when the oracle calls it a duplicate. Of the destinations the oracle names, those stay
that an edge leads to whose group admits the frame. Tunnels get the frame as it was captured, the
others get it with its hop count lowered.
-/
namespace MulticastRelay

/-- How an edge treats a frame. -/
inductive Passage where
  /-- The destination is the ingress itself, or the owner of the edge is gone. -/
  | ignored
  /-- No edge, or one whose group does not relay unicast frames. -/
  | unassociated
  | plain
  | tunnelled
deriving DecidableEq, Repr

namespace Topology

/-- How a frame captured on an interface would pass to a destination. -/
def passage (t : Topology) (ingress : Interface) (multicast : Bool) (dest : InterfaceId) : Passage :=
  if dest = ingress.id then .ignored
  else match ingress.associate? dest with
    | none => .unassociated
    | some edge =>
      match t.group? edge.owner with
      | none => .ignored
      | some g =>
        if !multicast && !g.policy.unicast then .unassociated
        else if g.tunnel then .tunnelled
        else .plain

end Topology

namespace Node

/-- Delivers a frame to interfaces chosen elsewhere, and says whether any took it. -/
def forward (n : Node) (destinations : List InterfaceId) (f : Frame) (now : Instant) :
    Except ClockFault (Bool × Node) := do
  let (report, stations) ← n.stations.dispatch destinations f now
  return (report.delivered, { n with stations })

/-- Why a captured frame goes no further, or the decision on it. -/
inductive Admission where
  | unknownIngress
  | captureClosed
  | igmpBlocked
  | truncated
  | duplicate (oracle : Oracle)
  | admitted (ingress : Interface) (multicast : Bool) (destinations : List InterfaceId) (oracle : Oracle)

/-- Runs a captured frame past the checks at its ingress and the oracle. -/
def admission (n : Node) (ingress : InterfaceId) (f : Frame) : Admission :=
  match n.topology.interface? ingress with
  | none => .unknownIngress
  | some i =>
    if !i.captureActive then .captureClosed
    else if i.flags.blockIGMP && Frame.isIGMP f then .igmpBlocked
    else match Frame.source? f, Frame.destination? f with
      | some source, some destination =>
        let (decision, oracle) := n.oracle.decide ⟨f, source, destination, i⟩
        if decision.duplicate then .duplicate oracle
        else .admitted i destination.isMulticast decision.destinations oracle
      | _, _ => .truncated

/-- Hands a frame to tunnels as it is and to plain destinations with its hop count lowered; the frame
afterwards, the report, and whether the hop count ran out. -/
def relay (s : Stations) (tunnelled plain : List InterfaceId) (f : Frame) (now : Instant) :
    Except ClockFault (Frame × DispatchReport × Bool × Stations) := do
  let (report, s) ← if tunnelled.isEmpty then pure ({}, s) else s.dispatch tunnelled f now
  if plain.isEmpty then return (f, report, false, s)
  else match Frame.lowerHopCount f with
    | (.expired, f) => return (f, report, true, s)
    | (_, f) =>
      let (more, s) ← s.dispatch plain f now
      return (f, report ++ more, false, s)

/-- Runs one captured frame through the node: whether it was relayed, and the frame afterwards. -/
def ingress (n : Node) (ingress : InterfaceId) (f : Frame) (now : Instant) :
    Except ClockFault ((Bool × Frame) × Node) := do
  let n := { n with counters.framesReceived := n.counters.framesReceived + 1 }
  match n.admission ingress f with
  | .unknownIngress | .truncated => return ((false, f), n)
  | .captureClosed =>
    return ((false, f), { n with counters.captureClosed := n.counters.captureClosed + 1 })
  | .igmpBlocked => return ((false, f), { n with counters.igmpBlocked := n.counters.igmpBlocked + 1 })
  | .duplicate oracle =>
    return ((false, f), { n with oracle, counters.duplicates := n.counters.duplicates + 1 })
  | .admitted i multicast destinations oracle =>
    let along (p : Passage) := destinations.filter fun d => n.topology.passage i multicast d = p
    let n := { n with
      oracle
      counters.unassociated := n.counters.unassociated + (along .unassociated).length }
    let (f, report, expired, stations) ← relay n.stations (along .tunnelled) (along .plain) f now
    let n := { n with stations, counters.expired := n.counters.expired + if expired then 1 else 0 }
    if report.delivered then
      return ((true, f), { n with counters.relayed := n.counters.relayed + 1 })
    else if (along .tunnelled).isEmpty && (along .plain).isEmpty then return ((false, f), n)
    else return ((false, f), { n with counters.undelivered := n.counters.undelivered + 1 })

end Node
end MulticastRelay
