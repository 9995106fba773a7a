import MulticastRelay.Node.Dispatch
import MulticastRelay.Node.Oracle
import MulticastRelay.Topology.Wildcard

/-! # Nodes

A node joins a topology with one adapter per interface, the buffer pool they share, the oracle for
relay decisions, and the links and devices of its host. An operation that fails half-way keeps what it
did so far, so every outcome comes with the node afterwards.
-/
namespace MulticastRelay

inductive NodeError where
  | topology (e : TopologyError)
  | transport (e : TransportError)
  | adapter (e : AdapterError)
  | unknownInterface (name : String)
  | unknownGroup (name : String)
  | invalidConfig (detail : String)
deriving DecidableEq, Repr

def NodeError.message : NodeError → String
  | .topology e => "Topology error: " ++ e.message
  | .transport e => "Transport error: " ++ e.message
  | .adapter e => "Adapter error: " ++ e.message
  | .unknownInterface name => "Unknown interface: " ++ name
  | .unknownGroup name => "Unknown group: " ++ name
  | .invalidConfig detail => "Invalid configuration: " ++ detail

structure NodeSettings where
  /-- Buffers in the pool. -/
  poolSize : Nat := 1024
  frameSize : Nat := 2048
  /-- The longest wait after a turn that captured nothing. -/
  idleTick : Duration := 100 * Duration.microsecond
  /-- Queue depth of new adapters. -/
  defaultQueue : QueueDepth := .bounded 64
deriving DecidableEq, Repr

structure IngressCounters where
  framesReceived : Nat := 0
  /-- Frames captured where capture is closed. -/
  captureClosed : Nat := 0
  igmpBlocked : Nat := 0
  duplicates : Nat := 0
  /-- Destinations without an edge that admits the frame. -/
  unassociated : Nat := 0
  expired : Nat := 0
  relayed : Nat := 0
  undelivered : Nat := 0
  /-- Receives that found the pool empty. -/
  poolExhausted : Nat := 0
deriving DecidableEq, Repr

structure Node where
  settings : NodeSettings
  topology : Topology := .empty
  stations : Stations
  oracle : Oracle := .flood
  host : Host := {}
  /-- The links known, each name once. -/
  links : List Link := []
  /-- The index made up last for a name that the host does not know. -/
  lastSynthetic : Nat
  counters : IngressCounters := {}

namespace Node

/-- Made-up indices start past this one. -/
def syntheticBase : Nat := 0x80000000

def new (settings : NodeSettings) : Node :=
  { settings
    stations := { pool := .new settings.poolSize settings.frameSize }
    lastSynthetic := syntheticBase }

def station? (n : Node) (id : InterfaceId) : Option Station := n.stations.get? id

def setStation (n : Node) (a : Station) : Node := { n with stations := n.stations.replace a }

/-! ## Links -/

/-- Records a link under its name. -/
def putLink (links : List Link) (l : Link) : List Link := Keyed.put Link.name l links

def setLinks (n : Node) (links : List Link) : Node := { n with links := links.foldl putLink [] }

/-- Known links in order of index. -/
def sortedLinks (n : Node) : List Link := n.links.mergeSort (fun a b => a.index ≤ b.index)

def link? (n : Node) (name : String) : Option Link := Keyed.get? Link.name name n.links

/-- A link with the index that its interface has already. -/
def normalize (n : Node) (l : Link) : Link :=
  match n.topology.interfaceNamed? l.name with
  | some i => { l with index := i.id.index }
  | none => l

/-! ## Interfaces -/

/-- The index for a name: of the interface, else of the link, else a made-up one. -/
def indexFor (n : Node) (name : String) : InterfaceId × Node :=
  match n.topology.interfaceNamed? name with
  | some i => (i.id, n)
  | none =>
    match n.link? name with
    | some l => (⟨l.index⟩, n)
    | none => (⟨n.lastSynthetic + 1⟩, { n with lastSynthetic := n.lastSynthetic + 1 })

/-- Makes the adapter of an interface if it has none. -/
def ensureStation (n : Node) (id : InterfaceId) (name : String) : Node :=
  if (n.station? id).isSome then n
  else
    let (a, pool) := (Adapter.new id name : Station).setQueueDepth n.stations.pool n.settings.defaultQueue
    { n with stations := { n.stations with pool }.insert a }

/-- Finds the interface of a name or makes it. -/
def addInterface (n : Node) (name : String) : InterfaceId × Node :=
  let (id, n) := n.indexFor name
  (id, { n with topology := n.topology.addInterface id name }.ensureStation id name)

def interfaceId? (n : Node) (name : String) : Except NodeError InterfaceId :=
  match n.topology.interfaceNamed? name with
  | some i => .ok i.id
  | none => .error (.unknownInterface name)

/-- The adapter of the interface of a name. -/
def stationNamed? (n : Node) (name : String) : Except NodeError Station := do
  let id ← n.interfaceId? name
  match n.station? id with
  | some a => .ok a
  | none => .error (.unknownInterface name)

def groupId? (n : Node) (name : String) : Except NodeError GroupId :=
  match n.topology.groupNamed? name with
  | some g => .ok g.id
  | none => .error (.unknownGroup name)

/-- Aligns the capture of every element with the capture state of its interface. -/
def syncCapture (n : Node) : Node :=
  let align (a : Station) : Station :=
    let active := match n.topology.interface? a.owner with
      | some i => i.captureActive
      | none => false
    a.mapElements fun e => if e.rxEnabled = active then e else e.setRx active
  { n with stations := { n.stations with adapters := n.stations.adapters.map align } }

/-! ## Devices -/

/-- Opens the devices of a list and attaches them to an adapter, up to the first that is refused. -/
def attachAll (a : Station) (host : Host) : List String → Except NodeError Unit × Station × Host
  | [] => (.ok (), a, host)
  | device :: rest =>
    match host.open? device with
    | .error e => (.error (.transport e), a, host)
    | .ok (d, host) => attachAll (a.addElement (.new d)) host rest

/-- Opens the devices bound to an interface if its adapter has none. -/
def openDevices (n : Node) (id : InterfaceId) : Except NodeError Unit × Node :=
  match n.topology.interface? id with
  | none => (.ok (), n)
  | some i =>
    let n := n.ensureStation id i.name
    match n.station? id with
    | none => (.ok (), n)
    | some a =>
      if !a.elements.isEmpty then (.ok (), n)
      else
        let (result, a, host) := attachAll a n.host i.binding.devices
        (result, { n.setStation a with host })

/-- Opens the devices of an interface, or goes without. -/
def tryOpenDevices (n : Node) (id : InterfaceId) : Node := (n.openDevices id).2

/-- Closes an adapter and lets its devices go. -/
def dropStation (n : Node) (id : InterfaceId) : Node :=
  match n.station? id with
  | none => n
  | some a =>
    let (a, pool) := a.close n.stations.pool
    { n with
      stations := { n.stations with pool }.erase id
      host := a.devices.foldl Host.release n.host }

/-- Detaches and closes the elements of the names in a list. -/
def detachAll (a : Station) (host : Host) : List String → Except NodeError Unit × Station × Host
  | [] => (.ok (), a, host)
  | name :: rest =>
    match a.removeElement name with
    | .error e => (.error (.adapter e), a, host)
    | .ok (e, a) => detachAll a (host.release e.close.device) rest

/-- Opens the devices of a list that an adapter does not have yet. -/
def attachMissing (a : Station) (host : Host) : List String → Except NodeError Unit × Station × Host
  | [] => (.ok (), a, host)
  | device :: rest =>
    if (a.element? device).isSome then attachMissing a host rest
    else match host.open? device with
      | .error e => (.error (.transport e), a, host)
      | .ok (d, host) => attachMissing (a.addElement (.new d)) host rest

/-- Backs an interface with devices: those no longer listed are closed, new ones are opened. -/
def setDevices (n : Node) (name : String) (devices : List String) : Except NodeError Unit × Node :=
  if devices.isEmpty then (.error (.invalidConfig (name ++ ": no devices")), n)
  else
    let (id, n) := n.addInterface name
    let n := { n with topology := n.topology.modifyInterface id fun i =>
      { i with binding := i.binding.withDevices devices } }
    match n.station? id with
    | none => (.error (.unknownInterface name), n)
    | some a =>
      let stale := (a.elements.map Element.name).filter fun e => !devices.contains e
      let (detached, a, host) := detachAll a n.host stale
      match detached with
      | .error e => (.error e, { n.setStation a with host })
      | .ok _ =>
        let (result, a, host) := attachMissing a host devices
        (result, { n.setStation a with host })

/-- Enables or disables transmission on one device of an interface. -/
def setDeviceTx (n : Node) (name device : String) (on : Bool) : Except NodeError Node := do
  let a ← n.stationNamed? name
  match a.setElementTx device on with
  | .ok a => .ok (n.setStation a)
  | .error e => .error (.adapter e)

/-- Feeds an interface from a software interface, whose frames leave under the given address. -/
def bindVif (n : Node) (name vif : String) (address : LinkAddress) : Except NodeError Unit × Node :=
  match n.interfaceId? name with
  | .error e => (.error e, n)
  | .ok id =>
    match n.host.open? vif with
    | .error e => (.error (.transport e), n)
    | .ok (d, host) =>
      let source := DeviceSource.new d
      let n := { n with
        host
        topology := n.topology.modifyInterface id fun i =>
          { i with binding := .virtual vif i.binding.devices } }
      match n.stationNamed? name with
      | .error e => (.error e, { n with host := n.host.release source.device })
      | .ok a =>
        let old := (a.source.map (·.device)).toList
        (.ok (),
          { n.setStation ((a.bindVif vif address).bindSource source) with
            host := old.foldl Host.release n.host })

/-! ## Settings of one interface -/

def modifyStation (n : Node) (name : String) (f : Station → Station) : Except NodeError Node := do
  return n.setStation (f (← n.stationNamed? name))

def setShadow (n : Node) (name : String) (shadow : Bool) : Except NodeError Node :=
  n.modifyStation name (·.setShadow shadow)

def setPolicy (n : Node) (name : String) (policy : Policy) : Except NodeError Node :=
  n.modifyStation name (·.setPolicy policy)

/-- Sets the rate in bytes per second. -/
def setRateLimit (n : Node) (name : String) (rate : Float) (now : Instant) :
    Except ClockFault (Except NodeError Node) :=
  match n.stationNamed? name with
  | .error e => .ok (.error e)
  | .ok a => do return .ok (n.setStation (← a.setRateLimit rate now))

def setQueueDepth (n : Node) (name : String) (depth : QueueDepth) : Except NodeError Node := do
  let (a, pool) := (← n.stationNamed? name).setQueueDepth n.stations.pool depth
  return { n with stations := { n.stations.replace a with pool } }

def modifyFlags (n : Node) (name : String) (f : InterfaceFlags → InterfaceFlags) : Except NodeError Node := do
  let id ← n.interfaceId? name
  return { n with topology := n.topology.modifyInterface id fun i => { i with flags := f i.flags } }

def addAddress (n : Node) (name : String) (address : IPAddress) : Except NodeError Node := do
  let id ← n.interfaceId? name
  return { n with topology := n.topology.modifyInterface id (·.addAddress address) }

end Node
end MulticastRelay
