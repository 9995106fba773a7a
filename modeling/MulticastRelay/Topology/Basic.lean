import MulticastRelay.Topology.Interface
import MulticastRelay.Topology.Matcher

/-! # Topology

The interfaces, groups and matchers of a node. Interfaces are addressed by index, and by name through
an index of names in which a name belongs to the interface that took it last. Groups are addressed by
handle, and by name through an index of their own that is kept apart from them. Edges are held as pairs
of handles, never as references.
-/
namespace MulticastRelay

inductive TopologyError where
  | unknownInterface (id : InterfaceId)
  | unknownGroup (name : String)
  /-- Wanted edges that belong to another group: the first one, its owner, and how many there are. -/
  | conflict (edge : Edge) (owner : GroupId) (count : Nat)
  | notPushGroup (name : String)
deriving DecidableEq, Repr

def TopologyError.message : TopologyError → String
  | .unknownInterface id => "Unknown interface: " ++ id.render
  | .unknownGroup name => "Unknown group: " ++ name
  | .conflict (ingress, egress) owner count =>
    s!"Associate {ingress.render}->{egress.render} already owned by {owner.render} ({count} conflicting edge(s))"
  | .notPushGroup name => s!"Group {name} is not a push group"

structure Topology where
  /-- In ascending order of index. -/
  interfaces : List Interface := []
  /-- Which interface answers to a name. -/
  names : List (String × InterfaceId) := []
  /-- In the order in which they were made. -/
  groups : List Group := []
  /-- Which group answers to a name, in ascending order of name. -/
  groupNames : List (String × GroupId) := []
  matchers : MatcherTable := .empty
  /-- The number of the handle given out last. -/
  lastGroup : Nat := 0
deriving DecidableEq, Repr

namespace Topology

def empty : Topology := {}

/-! ## Lookups -/

def interface? (t : Topology) (id : InterfaceId) : Option Interface :=
  Keyed.get? Interface.id id t.interfaces

def holderOf? (t : Topology) (name : String) : Option InterfaceId := t.names.lookup name

def interfaceNamed? (t : Topology) (name : String) : Option Interface :=
  t.holderOf? name >>= t.interface?

def group? (t : Topology) (id : GroupId) : Option Group := Keyed.get? Group.id id t.groups

def handleOf? (t : Topology) (name : String) : Option GroupId := t.groupNames.lookup name

def groupNamed? (t : Topology) (name : String) : Option Group := t.handleOf? name >>= t.group?

/-- The groups that names lead to, in ascending order of name. -/
def groupsByName (t : Topology) : List Group := t.groupNames.filterMap fun (_, id) => t.group? id

/-- Handles of the groups that an interface belongs to, in ascending order. -/
def groupsOf (t : Topology) (id : InterfaceId) : List GroupId :=
  Ascending.ofList GroupId.before ((t.groups.filter (·.hasMember id)).map (·.id))

def associateCount (t : Topology) : Nat := (t.interfaces.flatMap (·.associates)).length

/-! ## Changes to one entry -/

def modifyInterface (t : Topology) (id : InterfaceId) (f : Interface → Interface) : Topology :=
  { t with interfaces := Keyed.modify Interface.id id f t.interfaces }

def modifyGroup (t : Topology) (id : GroupId) (f : Group → Group) : Topology :=
  { t with groups := Keyed.modify Group.id id f t.groups }

/-! ## Interfaces -/

/-- Gives a name to an interface; whoever had it before no longer answers to it. -/
def bindName (names : List (String × InterfaceId)) (name : String) (id : InterfaceId) :
    List (String × InterfaceId) :=
  (name, id) :: Keyed.erase Prod.fst name names

/-- Finds the interface of an index or makes it; an interface of another name is renamed. -/
def addInterface (t : Topology) (id : InterfaceId) (name : String) : Topology :=
  match t.interface? id with
  | none =>
    { t with
      interfaces := Ascending.insert Interface.before (.new id name) t.interfaces
      names := bindName t.names name id }
  | some i =>
    let names := if i.name = name then t.names else Keyed.erase Prod.fst i.name t.names
    { t.modifyInterface id (fun i => { i with name }) with names := bindName names name id }

/-! ## Groups -/

def nameBefore (a b : String × GroupId) : Bool := a.1 < b.1

/-- Gives a name to a group; whichever had it before no longer answers to it. -/
def bindGroupName (names : List (String × GroupId)) (name : String) (id : GroupId) :
    List (String × GroupId) :=
  Ascending.insert nameBefore (name, id) (Keyed.erase Prod.fst name names)

/-- Enters a new group under its handle and under its name. -/
def insertGroup (t : Topology) (g : Group) : Topology :=
  { t with
    groups := Keyed.put Group.id g t.groups
    groupNames := bindGroupName t.groupNames g.name g.id
    lastGroup := t.lastGroup + 1 }

/-- Removes a group, its name and the edges it owns. -/
def dropGroup (t : Topology) (id : GroupId) : Topology :=
  match t.group? id with
  | none => t
  | some g =>
    { t with
      groups := Keyed.erase Group.id id t.groups
      groupNames := Keyed.erase Prod.fst g.name t.groupNames
      interfaces := t.interfaces.map (·.dropOwned id) }

/-- Groups made from a template for this source. -/
def derivedGroups (t : Topology) (id : InterfaceId) : List GroupId :=
  (t.groups.filter fun g => g.derivedFrom.isSome && g.source == some id).map (·.id)

/-! ## Destroying an interface -/

/-- Destroys an interface: the groups made for it as source go, it leaves every other group, and edges
towards it are retracted. -/
def removeInterface (t : Topology) (id : InterfaceId) : Topology :=
  match t.interface? id with
  | none => t
  | some i =>
    let t := { t with
      interfaces := Keyed.erase Interface.id id t.interfaces
      names := Keyed.erase Prod.fst i.name t.names }
    let t := (t.derivedGroups id).foldl dropGroup t
    { t with
      groups := t.groups.map (·.removeMember id)
      interfaces := t.interfaces.map (·.dropTowards id) }

end Topology
end MulticastRelay
