import MulticastRelay.Node.Basic

/-! # Devices of a node

Every device that a node opened is at an element or at a source of one of its adapters, or was let go.
-/
namespace MulticastRelay.Node

/-- All devices that were opened. -/
def devices (n : Node) : List Device := n.stations.adapters.flatMap (·.devices) ++ n.host.released

/-- Changes every device. -/
def mapDevices (f : Device → Device) (n : Node) : Node :=
  { n with
    stations := { n.stations with adapters := n.stations.adapters.map (·.mapDevices f) }
    host := { n.host with released := n.host.released.map f } }

/-- The latest device of those that a test accepts. -/
def latestDevice? (n : Node) (accepts : Device → Bool) : Option Device :=
  Device.latest? (n.devices.filter accepts)

/-- Changes the latest device of those that a test accepts, if there is one. -/
def modifyLatest? (n : Node) (accepts : Device → Bool) (f : Device → Device) : Option Node :=
  (n.latestDevice? accepts).map fun d => n.mapDevices (Device.onSerial d.serial f)

/-- Names of devices at elements, and of the software interfaces that are bound. -/
def devicesInUse (n : Node) : List String :=
  n.stations.adapters.flatMap (fun a => a.elements.map Element.name) ++
    n.topology.interfaces.filterMap (·.binding.vif?)

end MulticastRelay.Node
