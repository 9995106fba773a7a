import MulticastRelay.IPAddress
import MulticastRelay.Topology.Group

/-! # Interfaces

An interface is an endpoint of forwarding. It holds its addresses, flags and device binding, and the
associates that lead away from it: at most one for each target, owned by the group that made it.
-/
namespace MulticastRelay

structure InterfaceFlags where
  reliable : Bool := false
  layered : Bool := false
  resequence : Bool := false
  tunnel : Bool := false
  encapsulating : Bool := false
  usesPathMetric : Bool := false
  /-- Group membership frames captured here are not relayed. -/
  blockIGMP : Bool := false
  /-- Capture is closed while the interface relays nothing. -/
  divertOutput : Bool := false
deriving DecidableEq, Repr

/-- The flags of an interface by name. -/
inductive InterfaceFlag where
  | reliable
  | layered
  | resequence
  | tunnel
  | encapsulating
  | usesPathMetric
  | blockIGMP
  | divertOutput
deriving DecidableEq, Repr

namespace InterfaceFlag

def all : List InterfaceFlag :=
  [reliable, layered, resequence, tunnel, encapsulating, usesPathMetric, blockIGMP, divertOutput]

def token : InterfaceFlag → String
  | reliable => "reliable"
  | layered => "layered"
  | resequence => "resequence"
  | tunnel => "tunnel"
  | encapsulating => "encapsulating"
  | usesPathMetric => "uses_path_metric"
  | blockIGMP => "block_igmp"
  | divertOutput => "divert_output"

end InterfaceFlag

namespace InterfaceFlags

def get (f : InterfaceFlags) : InterfaceFlag → Bool
  | .reliable => f.reliable
  | .layered => f.layered
  | .resequence => f.resequence
  | .tunnel => f.tunnel
  | .encapsulating => f.encapsulating
  | .usesPathMetric => f.usesPathMetric
  | .blockIGMP => f.blockIGMP
  | .divertOutput => f.divertOutput

def set (f : InterfaceFlags) (on : Bool) : InterfaceFlag → InterfaceFlags
  | .reliable => { f with reliable := on }
  | .layered => { f with layered := on }
  | .resequence => { f with resequence := on }
  | .tunnel => { f with tunnel := on }
  | .encapsulating => { f with encapsulating := on }
  | .usesPathMetric => { f with usesPathMetric := on }
  | .blockIGMP => { f with blockIGMP := on }
  | .divertOutput => { f with divertOutput := on }

/-- Sets the flag of a token; another word changes nothing. -/
def setNamed (on : Bool) (f : InterfaceFlags) (token : String) : InterfaceFlags :=
  match InterfaceFlag.all.find? (·.token == token) with
  | some flag => f.set on flag
  | none => f

/-- Tokens of the flags that are set. -/
def tokens (f : InterfaceFlags) : List String := (InterfaceFlag.all.filter f.get).map InterfaceFlag.token

end InterfaceFlags

/-- The channels behind an interface. -/
inductive DeviceBinding where
  | physical (device : String)
  | composite (devices : List String)
  /-- A software interface, with the devices that its frames leave through. -/
  | virtual (vif : String) (devices : List String)
deriving DecidableEq, Repr

namespace DeviceBinding

def devices : DeviceBinding → List String
  | .physical device => [device]
  | .composite devices => devices
  | .virtual _ devices => devices

/-- The software interface, if there is one. -/
def vif? : DeviceBinding → Option String
  | .virtual vif _ => some vif
  | _ => none

/-- A binding to devices alone. -/
def ofDevices : List String → DeviceBinding
  | [device] => .physical device
  | devices => .composite devices

/-- Changes the devices; a software interface stays. -/
def withDevices (b : DeviceBinding) (devices : List String) : DeviceBinding :=
  match b with
  | .virtual vif _ => .virtual vif devices
  | _ => ofDevices devices

end DeviceBinding

/-- A directed edge, stored at the interface it leaves from. -/
structure Associate where
  owner : GroupId
  target : InterfaceId
deriving DecidableEq, Repr

structure Interface where
  id : InterfaceId
  name : String
  binding : DeviceBinding
  addresses : List IPAddress := []
  networkAddress : Option IPAddress := none
  flags : InterfaceFlags := {}
  /-- In the order in which they were made. -/
  associates : List Associate := []
  captureActive : Bool := false
deriving DecidableEq, Repr

/-- How an edge met the associates that were there. -/
inductive EdgeStatus where
  | created
  | existing
  | conflict (owner : GroupId)
deriving DecidableEq, Repr

namespace Interface

/-- A new interface is bound to the device of its own name. -/
def new (id : InterfaceId) (name : String) : Interface := { id, name, binding := .physical name }

def before (a b : Interface) : Bool := a.id.before b.id

def associate? (i : Interface) (target : InterfaceId) : Option Associate :=
  i.associates.find? (fun a => a.target = target)

def targets (i : Interface) : List InterfaceId := i.associates.map (·.target)

/-- Adds an edge for a group unless there is one to the same target already, which keeps its owner. -/
def connect (i : Interface) (owner : GroupId) (target : InterfaceId) : EdgeStatus × Interface :=
  match i.associate? target with
  | some a => (if a.owner = owner then .existing else .conflict a.owner, i)
  | none => (.created, { i with associates := i.associates ++ [⟨owner, target⟩] })

def dropOwned (i : Interface) (owner : GroupId) : Interface :=
  { i with associates := i.associates.filter (fun a => a.owner ≠ owner) }

def dropTowards (i : Interface) (target : InterfaceId) : Interface :=
  { i with associates := i.associates.filter (fun a => a.target ≠ target) }

/-- Whether capture should be open: always, except where output diversion closes it on an interface
that relays nothing. -/
def wantsCapture (i : Interface) : Bool := !i.associates.isEmpty || !i.flags.divertOutput

def updateCapture (i : Interface) : Interface := { i with captureActive := i.wantsCapture }

/-- Adds an address that is not there yet. -/
def addAddress (i : Interface) (address : IPAddress) : Interface :=
  if i.addresses.contains address then i else { i with addresses := i.addresses ++ [address] }

/-- The address that stands for the node on this link: the one set, else the first. -/
def netAddress? (i : Interface) : Option IPAddress := i.networkAddress <|> i.addresses.head?

end Interface
end MulticastRelay
