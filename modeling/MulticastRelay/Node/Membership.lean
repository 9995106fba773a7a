import MulticastRelay.Node.Basic

/-! # Groups and links of a node

Operations on groups that keep the adapters in step with the topology: new members get their devices
opened, destroyed interfaces lose their adapters, and capture follows the graph.
-/
namespace MulticastRelay.Node

/-! ## Links coming and going -/

/-- A link came up: wildcards are resolved against it and the groups touched are listed. -/
def linkUp (n : Node) (link : Link) : List GroupId × Node :=
  let n := { n with links := putLink n.links link }
  let link := n.normalize link
  let (touched, topology) := n.topology.linkUp link
  let n := { n with topology }
  (touched, (n.tryOpenDevices ⟨link.index⟩).syncCapture)

/-- Destroys an interface with its adapter. -/
def destroyInterface (n : Node) (id : InterfaceId) : Node :=
  { n with topology := n.topology.removeInterface id }.dropStation id

/-- A link went down: its interface is destroyed, if it has one, which the flag tells. -/
def linkDown (n : Node) (name : String) : Bool × Node :=
  let n := { n with links := Keyed.modify Link.name name (fun l => { l with up := false }) n.links }
  match n.topology.interfaceNamed? name with
  | none => (false, n)
  | some i => (true, (n.destroyInterface i.id).syncCapture)

/-! ## Groups -/

def addGroup (n : Node) (name : String) (mode : Mode) (relayType : RelayType) :
    (GroupId × Registration) × Node :=
  let (result, topology) := n.topology.addGroup name mode relayType
  (result, { n with topology })

/-- Sets the policies of a group. -/
def setGroupPolicy (n : Node) (name : String) (policy : GroupPolicy) (tunnel resequence : Bool) :
    Except NodeError Node := do
  let id ← n.groupId? name
  return { n with topology := n.topology.modifyGroup id fun g => { g with policy, tunnel, resequence } }

/-- Registers a wildcard member and binds the links that are up and match. -/
def addWildcardMember (n : Node) (group : GroupId) (stem : String) (role : Role) :
    Except NodeError Nat × Node :=
  match n.topology.addMatcher group stem role with
  | .error e => (.error (.topology e), n)
  | .ok (matcher, topology) =>
    let n := { n with topology }
    let links := (n.sortedLinks.filter fun l => matcher.accepts l.name).map n.normalize
    let (bound, topology) := n.topology.matchLinks matcher links
    let n := { n with topology }
    let n := (links.filter (·.up)).foldl (fun n l => n.tryOpenDevices ⟨l.index⟩) n
    (bound.mapError .topology, n.syncCapture)

/-- Adds an interface to a group, making it if need be, and runs the association pass. -/
def addConcreteMember (n : Node) (group : GroupId) (member : String) (role : Role) :
    Except NodeError Nat × Node :=
  let (id, n) := n.addInterface member
  match n.topology.addMember group id role with
  | .error e => (.error (.topology e), n)
  | .ok topology =>
    let n := { n with topology }
    match n.openDevices id with
    | (.error e, n) => (.error e, n)
    | (.ok _, n) =>
      let (report, topology) := n.topology.associate group
      ((report.map fun _ => 1).mapError .topology, { n with topology }.syncCapture)

/-- Adds a member or a wildcard to a group and counts the interfaces bound. -/
def addMember (n : Node) (group member : String) (role : Role) : Except NodeError Nat × Node :=
  match n.groupId? group with
  | .error e => (.error e, n)
  | .ok id =>
    match wildcardStem? member with
    | some stem => n.addWildcardMember id stem role
    | none => n.addConcreteMember id member role

/-- Runs the association pass of a group. -/
def associate (n : Node) (group : String) : Except NodeError AssociationReport × Node :=
  match n.groupId? group with
  | .error e => (.error e, n)
  | .ok id =>
    let (report, topology) := n.topology.associate id
    (report.mapError .topology, { n with topology }.syncCapture)

/-- Takes a member out of a group; its edges stay unless that destroys it. -/
def removeMember (n : Node) (group member : String) : Except NodeError Node := do
  let gid ← n.groupId? group
  let id ← n.interfaceId? member
  let (destroyed, topology) ← (n.topology.removeMember gid id).mapError .topology
  let n := { n with topology }
  return if destroyed then n.dropStation id else n

/-- Removes a group and lists the interfaces it leaves in no group, which are destroyed. -/
def removeGroup (n : Node) (group : String) : Except NodeError (List InterfaceId × Node) := do
  let id ← n.groupId? group
  let (destroyed, topology) ← (n.topology.removeGroup id).mapError .topology
  return (destroyed, (destroyed.foldl dropStation { n with topology }).syncCapture)

end MulticastRelay.Node
