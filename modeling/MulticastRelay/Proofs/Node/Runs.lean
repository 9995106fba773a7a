import MulticastRelay.Node.Devices
import MulticastRelay.Node.Turn
import MulticastRelay.Proofs.Adapter.Runs

/-! # Runs of a node

Everything that may be asked of a node, in any order and at any time. Between requests the far ends
of its devices may change at will, and so may the devices that its host refuses to open. A request
that fails half-way keeps what it did; one that has no time to be carried out ends the run.
-/
namespace MulticastRelay.Node

inductive Event where
  | setOracle (oracle : Oracle)
  | setLinks (links : List Link)
  | linkUp (link : Link)
  | linkDown (name : String)
  | addInterface (name : String)
  | setDevices (name : String) (devices : List String)
  | setDeviceTx (name device : String) (on : Bool)
  | bindVif (name vif : String) (address : LinkAddress)
  | setShadow (name : String) (shadow : Bool)
  | setPolicy (name : String) (policy : Policy)
  | setRateLimit (name : String) (rate : Float) (now : Instant)
  | setQueueDepth (name : String) (depth : Int)
  | modifyFlags (name : String) (change : InterfaceFlags → InterfaceFlags)
  | addAddress (name : String) (address : IPAddress)
  | addGroup (name : String) (mode : Mode) (relay : RelayType)
  | setGroupPolicy (name : String) (policy : GroupPolicy) (tunnel resequence : Bool)
  | addMember (group member : String) (role : Role)
  | associate (group : String)
  | removeMember (group member : String)
  | removeGroup (group : String)
  | forward (destinations : List InterfaceId) (f : Frame) (now : Instant)
  | ingress (id : InterfaceId) (f : Frame) (now : Instant)
  | poll (now : Instant)
  | shutdown
  /-- The far ends of the devices change. -/
  | channels (change : Device → Device)
  | refusals (names : List String)

/-- The node after a request that leaves it alone when it fails. -/
def orSame (n : Node) : Except NodeError Node → Node
  | .ok m => m
  | .error _ => n

def next (n : Node) : Event → Except ClockFault Node
  | .setOracle oracle => .ok { n with oracle }
  | .setLinks links => .ok (n.setLinks links)
  | .linkUp link => .ok (n.linkUp link).2
  | .linkDown name => .ok (n.linkDown name).2
  | .addInterface name => .ok (n.addInterface name).2
  | .setDevices name devices => .ok (n.setDevices name devices).2
  | .setDeviceTx name device on => .ok (n.orSame (n.setDeviceTx name device on))
  | .bindVif name vif address => .ok (n.bindVif name vif address).2
  | .setShadow name shadow => .ok (n.orSame (n.setShadow name shadow))
  | .setPolicy name policy => .ok (n.orSame (n.setPolicy name policy))
  | .setRateLimit name rate now => (n.setRateLimit name rate now).map n.orSame
  | .setQueueDepth name depth => .ok (n.orSame (n.setQueueDepth name (.ofConfig depth)))
  | .modifyFlags name change => .ok (n.orSame (n.modifyFlags name change))
  | .addAddress name address => .ok (n.orSame (n.addAddress name address))
  | .addGroup name mode relay => .ok (n.addGroup name mode relay).2
  | .setGroupPolicy name policy tunnel resequence =>
    .ok (n.orSame (n.setGroupPolicy name policy tunnel resequence))
  | .addMember group member role => .ok (n.addMember group member role).2
  | .associate group => .ok (n.associate group).2
  | .removeMember group member => .ok (n.orSame (n.removeMember group member))
  | .removeGroup group => .ok (n.orSame ((n.removeGroup group).map (·.2)))
  | .forward destinations f now => (n.forward destinations f now).map (·.2)
  | .ingress id f now => (n.ingress id f now).map (·.2)
  | .poll now => (n.poll now).map (·.2)
  | .shutdown => .ok n.shutdown
  | .channels change => .ok (n.mapDevices (Device.meanwhile change))
  | .refusals names => .ok { n with host.refused := names }

inductive Reachable : Node → Prop where
  | new (settings : NodeSettings) : Reachable (new settings)
  | next {n m : Node} (e : Event) : Reachable n → n.next e = .ok m → Reachable m

end MulticastRelay.Node
