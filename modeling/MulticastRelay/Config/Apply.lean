import MulticastRelay.Config.Document
import MulticastRelay.Node.Membership
import MulticastRelay.Toml.Printer

/-! # Configurations and nodes

A configuration is read from text and written to it, applied to a node, and captured from one.
Interfaces are applied before groups, so that their flags stand when edges are made. Conflicts between
groups over an edge are tolerated.
-/
namespace MulticastRelay

inductive ConfigError where
  | document
  /-- A number that a document cannot hold. -/
  | outOfRange
  | node (e : NodeError)
  | invalid (detail : String)
deriving DecidableEq, Repr

def ConfigError.message : ConfigError → String
  | .document => "Invalid document"
  | .outOfRange => "out-of-range value for u64 type"
  | .node e => e.message
  | .invalid detail => "Invalid configuration: " ++ detail

namespace Config

/-- Reads a link address in a configuration. -/
def linkAddress (text : String) : Except ConfigError LinkAddress :=
  match LinkAddress.parse? text with
  | some a => .ok a
  | none => .error (.invalid ("Invalid link address: " ++ text))

/-- A step of applying a configuration: it may stop with an error, and the node is kept either way. The
clock may fail beneath it. -/
abbrev Applying := ExceptT ConfigError (StateT Node (Except ClockFault))

namespace Applying

/-- A step whose node counts also when it fails. -/
def step {α : Type} (f : Node → Except NodeError α × Node) : Applying α := do
  let (result, n) := f (← get)
  set n
  match result with
  | .ok a => return a
  | .error e => throw (.node e)

/-- A step that leaves the node alone when it fails. -/
def change (f : Node → Except NodeError Node) : Applying Unit :=
  step fun n => match f n with
    | .ok n => (.ok (), n)
    | .error e => (.error e, n)

def setRate (name : String) (rate : Float) (now : Instant) : Applying Unit := do
  match ← (monadLift ((← get).setRateLimit name rate now) : StateT Node (Except ClockFault) _) with
  | .ok n => set n
  | .error e => throw (.node e)

end Applying

open Applying

def applyInterface (e : InterfaceEntry) (now : Instant) : Applying Unit := do
  step (·.setDevices e.name e.deviceList)
  change (·.setPolicy e.name e.policy)
  change (·.setShadow e.name e.shadow)
  change (·.modifyFlags e.name e.flags)
  e.addresses.forM fun a => change (·.addAddress e.name a)
  match e.queue with
  | some depth => change (·.setQueueDepth e.name (.ofConfig depth))
  | none => pure ()
  setRate e.name e.rate.toFloat now
  match e.vif with
  | none => pure ()
  | some vif =>
    match e.vifAddress with
    | none => throw (.invalid s!"{e.name}: vif {vif} needs vif_address")
    | some text =>
      let address ← (linkAddress text : Except ConfigError LinkAddress)
      step (·.bindVif e.name vif address)

/-- Reads a token of a group. -/
def groupToken {α : Type} (g : GroupEntry) (token : Except TokenError α) : Except ConfigError α :=
  token.mapError fun e => .invalid (g.name ++ ": " ++ e.message)

/-- Adds a member; a conflict over an edge is tolerated. -/
def applyMember (group member : String) (role : Role) : Applying Unit := do
  let (result, n) := (← get).addMember group member role
  set n
  match result with
  | .ok _ | .error (.topology (.conflict ..)) => pure ()
  | .error e => throw (.node e)

def applyGroup (g : GroupEntry) : Applying Unit := do
  let mode ← groupToken g (Mode.ofToken g.mode)
  let relay ← groupToken g (RelayType.ofToken g.relay)
  if g.source.isSome && mode ≠ .push then
    throw (.invalid s!"{g.name}: source given to {mode.token} group")
  modify fun n => (n.addGroup g.name mode relay).2
  change (·.setGroupPolicy g.name g.policy g.tunnel g.resequence)
  g.source.toList.forM (applyMember g.name · .source)
  g.members.forM (applyMember g.name · .destination)

def applyAll (c : Configuration) (now : Instant) : Applying Unit := do
  c.interfaces.forM (applyInterface · now)
  c.groups.forM applyGroup

end Config

namespace Configuration

/-- Reads a configuration from a document. -/
def parse? (text : String) : Option Configuration := Toml.parse? text >>= Config.ofEntries?

/-- Writes a configuration as a document, unless a number is out of range. -/
def render (c : Configuration) : Except ConfigError String :=
  if c.engine.isWritable then .ok (Toml.render (Config.toEntries c)) else .error .outOfRange

/-- Builds what the configuration describes on a node. -/
def apply (c : Configuration) (n : Node) (now : Instant) :
    Except ClockFault (Except ConfigError Unit × Node) :=
  (Config.applyAll c now).run.run n

end Configuration

namespace Config

/-- The device fields of an interface: a single device of the interface's own name goes unsaid. -/
def deviceFields (name : String) : List String → Option String × List String
  | [device] => if device = name then (none, []) else (some device, [])
  | devices => (none, devices)

def captureInterface (n : Node) (i : Interface) : InterfaceEntry :=
  let (device, devices) := deviceFields i.name i.binding.devices
  let entry : InterfaceEntry :=
    { name := i.name, device, devices
      vif := i.binding.vif?
      addresses := i.addresses
      reliable := i.flags.reliable
      layered := i.flags.layered
      blockIGMP := i.flags.blockIGMP
      divertOutput := i.flags.divertOutput }
  match n.station? i.id with
  | none => entry
  | some a =>
    { entry with
      policy := a.composite.policy
      shadow := a.shadow
      rate := .ofFloat a.rate.toBytesPerSecond
      queue := if a.queue.depth = n.settings.defaultQueue then none else some a.queue.depth.toConfig
      vifAddress := a.vif.map (·.address.render) }

/-- The wildcard that stands as the source of a group: the last source matcher of a push group. -/
def wildcardSource? (g : Group) (ms : List Matcher) : Option String :=
  ((ms.filter fun m => m.role = .source ∧ g.mode = .push).getLast?).map fun m => wildcardName m.stem

/-- The wildcards that stand among the members of a group. -/
def wildcardMembers (g : Group) (ms : List Matcher) : List String :=
  (ms.filter fun m => ¬(m.role = .source ∧ g.mode = .push)).map fun m => wildcardName m.stem

def captureGroup (t : Topology) (g : Group) : GroupEntry :=
  let nameOf (id : InterfaceId) : Option String := (t.interface? id).map (·.name)
  let ms := t.matchers.toList.filter (·.group = g.name)
  { name := g.name
    mode := g.mode.token
    relay := g.relayType.token
    source := wildcardSource? g ms <|> g.source >>= nameOf
    members := (g.members.filter fun m => some m ≠ g.source).filterMap nameOf ++ wildcardMembers g ms
    elastic := g.policy.elastic
    unicast := g.policy.unicast
    pathMetric := g.policy.pathMetric
    resequence := g.resequence
    tunnel := g.tunnel }

end Config

/-- The configuration that a node stands for. Groups made from templates are left out: the template
with its wildcard source stands for them. -/
def Configuration.capture (n : Node) : Configuration :=
  { engine :=
      { poolSize := n.settings.poolSize
        frameSize := n.settings.frameSize
        idleTick := n.settings.idleTick / Duration.microsecond
        defaultQueue := n.settings.defaultQueue.toConfig }
    interfaces := n.topology.interfaces.map (Config.captureInterface n)
    groups :=
      ((n.topology.groupsByName.filter (·.derivedFrom.isNone)).mergeSort
        (fun a b => a.id.number ≤ b.id.number)).map (Config.captureGroup n.topology) }

end MulticastRelay
