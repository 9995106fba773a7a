import MulticastRelay.Channel.Composite
import MulticastRelay.IPAddress
import MulticastRelay.Node.Basic

/-! # Configuration

What an operator writes down about a node: its pool and defaults, its interfaces and its groups. Modes
and relay algorithms are kept as written; they are read when the configuration is applied.
-/
namespace MulticastRelay.Config

structure EngineSection where
  poolSize : Nat := 1024
  frameSize : Nat := 2048
  /-- The longest wait of an idle turn, in microseconds. -/
  idleTick : Nat := 100
  /-- Queue depth of interfaces that do not set one. -/
  defaultQueue : Int := 64
deriving DecidableEq, BEq, Repr

structure InterfaceEntry where
  name : String
  /-- The device behind the interface, if it has another name. -/
  device : Option String := none
  /-- The devices of a composite interface. -/
  devices : List String := []
  vif : Option String := none
  vifAddress : Option String := none
  policy : Policy := .mirror
  addresses : List IPAddress := []
  reliable : Bool := false
  layered : Bool := false
  shadow : Bool := false
  blockIGMP : Bool := false
  divertOutput : Bool := false
  /-- Bytes per second; -1 is unlimited and 0 suspended. -/
  rate : Decimal.Binary64 := .ofFloat (-1)
  queue : Option Int := none
deriving BEq, Repr

structure GroupEntry where
  name : String
  mode : String
  relay : String := RelayType.classicalFlooding.token
  source : Option String := none
  members : List String := []
  elastic : Bool := false
  unicast : Bool := false
  pathMetric : Bool := false
  resequence : Bool := false
  tunnel : Bool := false
deriving DecidableEq, BEq, Repr

end Config

structure Configuration where
  engine : Config.EngineSection := {}
  interfaces : List Config.InterfaceEntry := []
  groups : List Config.GroupEntry := []
deriving BEq, Repr

namespace Config

def EngineSection.settings (s : EngineSection) : NodeSettings :=
  { poolSize := s.poolSize
    frameSize := s.frameSize
    idleTick := s.idleTick * Duration.microsecond
    defaultQueue := .ofConfig s.defaultQueue }

/-- Numbers of a document stay below this one. -/
def numberBound : Nat := Nat.pow 2 63

/-- Whether a document can hold the numbers of the section. -/
def EngineSection.isWritable (s : EngineSection) : Bool :=
  s.poolSize < numberBound && s.frameSize < numberBound && s.idleTick < numberBound

/-- The devices behind an interface: those listed, else its one device, else the one of its name. -/
def InterfaceEntry.deviceList (e : InterfaceEntry) : List String :=
  if e.devices.isEmpty then [e.device.getD e.name] else e.devices

def InterfaceEntry.flags (e : InterfaceEntry) (old : InterfaceFlags) : InterfaceFlags :=
  { old with
    reliable := e.reliable
    layered := e.layered
    blockIGMP := e.blockIGMP
    divertOutput := e.divertOutput }

def GroupEntry.policy (g : GroupEntry) : GroupPolicy := ⟨g.elastic, g.unicast, g.pathMetric⟩

/-- A small configuration to start from. -/
def sample : Configuration :=
  { interfaces :=
      [{ name := "wlan0" },
       { name := "wan0", devices := ["eth1", "eth2"], policy := .roundRobin, rate := .ofFloat 125000 }]
    groups :=
      [{ name := "manet", mode := Mode.relay.token, relay := RelayType.essentialDominatingSet.token,
         members := ["wlan0", "wan0"] },
       { name := "ppp", mode := Mode.push.token, source := some "ppp#", members := ["wlan0"],
         tunnel := true }] }

end Config
end MulticastRelay
