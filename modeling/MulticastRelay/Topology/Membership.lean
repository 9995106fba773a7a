import MulticastRelay.Topology.Basic

/-! # Groups and membership

Registering and removing groups, and moving interfaces in and out of them. An interface that a removal
leaves in no group is destroyed.
-/
namespace MulticastRelay

/-- How a registration met the groups that were there. -/
inductive Registration where
  | created
  | existing
  /-- The group kept its members and took a new mode or relay algorithm. -/
  | reconfigured
deriving DecidableEq, Repr

namespace Topology

/-- Registers a group, or registers it again with other attributes, which win. -/
def addGroup (t : Topology) (name : String) (mode : Mode) (relayType : RelayType) :
    (GroupId × Registration) × Topology :=
  match t.groupNamed? name with
  | some g =>
    if g.mode = mode ∧ g.relayType = relayType then ((g.id, .existing), t)
    else
      ((g.id, .reconfigured), t.modifyGroup g.id fun g => { g.setMode mode with relayType })
  | none =>
    let id : GroupId := ⟨t.lastGroup + 1⟩
    ((id, .created), t.insertGroup { id, name, mode, relayType })

/-- The mark between the name of a template and the name of a source. -/
def instanceMark : Char := ':'

/-- Whether a group of this name is `base` or was made from it: nothing but the mark may follow. -/
def sharesName (base name : String) : Bool :=
  match name.toList.drop base.toList.length with
  | [] => true
  | c :: _ => c == instanceMark

/-- The groups named `base` or made from it, in order of name. Names with a common start stand
together, so the walk begins at `base` and ends at the first name that starts otherwise. -/
def groupsSharingName (t : Topology) (base : String) : List GroupId :=
  (((t.groupNames.dropWhile (·.1 < base)).takeWhile (isStemOf base ·.1)).filter
    (sharesName base ·.1)).map (·.2)

/-- Adds an interface to a group. As the source of a push group it replaces the source there was and
ends the group's life as a template. -/
def addMember (t : Topology) (group : GroupId) (id : InterfaceId) (role : Role) :
    Except TopologyError Topology :=
  if (t.interface? id).isNone then .error (.unknownInterface id)
  else match t.group? group with
    | none => .error (.unknownGroup group.render)
    | some _ =>
      .ok <| t.modifyGroup group fun g =>
        let g := g.insertMember id
        if role = .source ∧ g.mode = .push then g.setSource id else g

/-- Destroys an interface that belongs to no group, and says whether it did. -/
def removeIfOrphan (t : Topology) (id : InterfaceId) : Bool × Topology :=
  if (t.groupsOf id).isEmpty && (t.interface? id).isSome then (true, t.removeInterface id)
  else (false, t)

/-- Takes an interface out of a group and destroys it when that was its last one, which the flag
tells. Its edges stay otherwise. -/
def removeMember (t : Topology) (group : GroupId) (id : InterfaceId) :
    Except TopologyError (Bool × Topology) :=
  match t.group? group with
  | none => .error (.unknownGroup group.render)
  | some g =>
    if !g.hasMember id then .error (.unknownInterface id)
    else
      let t := t.modifyGroup group (·.removeMember id)
      if (t.groupsOf id).isEmpty then .ok (true, t.removeInterface id) else .ok (false, t)

/-- Destroys the interfaces of a list that belong to no group, and lists them. -/
def removeOrphans (t : Topology) : List InterfaceId → List InterfaceId × Topology
  | [] => ([], t)
  | id :: ids =>
    let (gone, t) := t.removeIfOrphan id
    let (rest, t) := t.removeOrphans ids
    (if gone then id :: rest else rest, t)

/-- Removes a group with its edges and matchers, and the members it leaves in no group, which are
listed. -/
def removeGroup (t : Topology) (group : GroupId) : Except TopologyError (List InterfaceId × Topology) :=
  match t.group? group with
  | none => .error (.unknownGroup group.render)
  | some g =>
    let t := { t with matchers := t.matchers.removeGroup g.name }
    .ok ((t.dropGroup group).removeOrphans g.members)

end Topology
end MulticastRelay
