import MulticastRelay.Topology.Wildcard

/-! # Runs of a topology

Everything that may be asked of a topology, in any order. What an interface or a group carries apart
from the graph may be set at any time. A request that is refused leaves the topology alone; a pass
or a resolution that meets conflicts keeps what it did.
-/
namespace MulticastRelay.Topology

inductive Event where
  | addInterface (id : InterfaceId) (name : String)
  | removeInterface (id : InterfaceId)
  | addAddress (id : InterfaceId) (address : IPAddress)
  | setNetworkAddress (id : InterfaceId) (address : IPAddress)
  | modifyFlags (id : InterfaceId) (change : InterfaceFlags → InterfaceFlags)
  | setBinding (id : InterfaceId) (binding : DeviceBinding)
  | addGroup (name : String) (mode : Mode) (relay : RelayType)
  | setGroupPolicy (group : GroupId) (policy : GroupPolicy) (tunnel resequence : Bool)
  | removeGroup (group : GroupId)
  | addMember (group : GroupId) (id : InterfaceId) (role : Role)
  | removeMember (group : GroupId) (id : InterfaceId)
  | associate (group : GroupId)
  | addMatcher (group : GroupId) (stem : String) (role : Role)
  | matchLinks (m : Matcher) (links : List Link)
  | linkUp (link : Link)

/-- The topology after a request that leaves it alone when it is refused. -/
def orSame (t : Topology) : Except TopologyError Topology → Topology
  | .ok u => u
  | .error _ => t

def next (t : Topology) : Event → Topology
  | .addInterface id name => t.addInterface id name
  | .removeInterface id => t.removeInterface id
  | .addAddress id address => t.modifyInterface id (·.addAddress address)
  | .setNetworkAddress id address =>
    t.modifyInterface id fun i => { i with networkAddress := some address }
  | .modifyFlags id change => t.modifyInterface id fun i => { i with flags := change i.flags }
  | .setBinding id binding => t.modifyInterface id fun i => { i with binding }
  | .addGroup name mode relay => (t.addGroup name mode relay).2
  | .setGroupPolicy group policy tunnel resequence =>
    t.modifyGroup group fun g => { g with policy, tunnel, resequence }
  | .removeGroup group => t.orSame ((t.removeGroup group).map (·.2))
  | .addMember group id role => t.orSame (t.addMember group id role)
  | .removeMember group id => t.orSame ((t.removeMember group id).map (·.2))
  | .associate group => (t.associate group).2
  | .addMatcher group stem role => t.orSame ((t.addMatcher group stem role).map (·.2))
  | .matchLinks m links => (t.matchLinks m links).2
  | .linkUp link => (t.linkUp link).2

inductive Reachable : Topology → Prop where
  | empty : Reachable empty
  | next {t : Topology} (e : Event) : Reachable t → Reachable (t.next e)

theorem reachable_foldl {t : Topology} (h : Reachable t) (events : List Event) :
    Reachable (events.foldl next t) := by
  induction events generalizing t with
  | nil => exact h
  | cons e events ih => exact ih (.next e h)

end MulticastRelay.Topology
