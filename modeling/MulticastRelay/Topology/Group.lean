import MulticastRelay.Ascending

/-! # Interface groups

A group is a named set of interfaces with one forwarding mode and one relay algorithm. In a push group
one source relays to every other member; in a mesh every member relays to every other. A template is a
push group that serves only as the blueprint of groups made for one source each.
-/
namespace MulticastRelay

/-- The index that the host gives an interface. -/
structure InterfaceId where
  index : Nat
deriving DecidableEq, Repr, Inhabited

namespace InterfaceId

def before (a b : InterfaceId) : Bool := a.index < b.index

def render (a : InterfaceId) : String := s!"if#{a.index}"

end InterfaceId

/-- The handle of a group; handles are given out in ascending order and not reused. -/
structure GroupId where
  number : Nat
deriving DecidableEq, Repr, Inhabited

namespace GroupId

def before (a b : GroupId) : Bool := a.number < b.number

def render (a : GroupId) : String := s!"group#{a.number}"

end GroupId

/-- How frames move among the members of a group. -/
inductive Mode where
  | push
  | merge
  | relay
deriving DecidableEq, Repr

/-- The algorithm that selects relays; the node only records it. -/
inductive RelayType where
  | classicalFlooding
  | sourceSpecific
  | nonSourceSpecific
  | relayDominatingSet
  | essentialDominatingSet
deriving DecidableEq, Repr

/-- A word that names no mode or no relay algorithm. -/
inductive TokenError where
  | mode (token : String)
  | relayType (token : String)
deriving DecidableEq, Repr

def TokenError.message : TokenError → String
  | .mode token => "Unknown mode token: " ++ token
  | .relayType token => "Unknown relay type token: " ++ token

namespace Mode

def token : Mode → String
  | push => "push"
  | merge => "merge"
  | relay => "relay"

/-- Reads a mode, in either case. -/
def ofToken (text : String) : Except TokenError Mode :=
  match text.toLower with
  | "push" => .ok push
  | "merge" => .ok merge
  | "relay" => .ok relay
  | _ => .error (.mode text)

/-- In a mesh every member relays to every other. -/
def isMesh : Mode → Bool
  | push => false
  | merge | relay => true

end Mode

namespace RelayType

def token : RelayType → String
  | classicalFlooding => "cf"
  | sourceSpecific => "s-mpr"
  | nonSourceSpecific => "ns-mpr"
  | relayDominatingSet => "mpr-cds"
  | essentialDominatingSet => "e-cds"

/-- Reads a relay algorithm, in either case and with or without its hyphen. -/
def ofToken (text : String) : Except TokenError RelayType :=
  match text.toLower with
  | "cf" => .ok classicalFlooding
  | "s-mpr" | "smpr" => .ok sourceSpecific
  | "ns-mpr" | "nsmpr" => .ok nonSourceSpecific
  | "mpr-cds" | "mprcds" => .ok relayDominatingSet
  | "e-cds" | "ecds" => .ok essentialDominatingSet
  | _ => .error (.relayType text)

end RelayType

/-- The part an interface plays in a group; in a mesh it makes no difference. -/
inductive Role where
  | source
  | destination
deriving DecidableEq, Repr

/-- Policies that the relay control plane reads, and whether unicast frames are relayed. -/
structure GroupPolicy where
  elastic : Bool := false
  unicast : Bool := false
  pathMetric : Bool := false
deriving DecidableEq, Repr

/-- A directed edge: the first interface relays to the second. -/
abbrev Edge := InterfaceId × InterfaceId

structure Group where
  id : GroupId
  name : String
  mode : Mode
  relayType : RelayType
  policy : GroupPolicy := {}
  /-- Relayed frames are put back in sequence. -/
  resequence : Bool := false
  /-- Relayed frames keep their hop count. -/
  tunnel : Bool := false
  isTemplate : Bool := false
  source : Option InterfaceId := none
  /-- All members, a push source included, in ascending order. -/
  members : List InterfaceId := []
  /-- The template that the group was made from. -/
  derivedFrom : Option GroupId := none
deriving DecidableEq, Repr

namespace Group

/-- The group that a template stands for once its source is known. -/
def instantiate (template : Group) (id : GroupId) (name : String) (source : InterfaceId) : Group :=
  { id, name
    mode := .push
    relayType := template.relayType
    policy := template.policy
    resequence := template.resequence
    tunnel := template.tunnel
    source := some source
    members := Ascending.insert InterfaceId.before source template.members
    derivedFrom := some template.id }

/-- Changes the mode; only a push group keeps a source or stays a template. -/
def setMode (g : Group) (mode : Mode) : Group :=
  if mode = .push then { g with mode }
  else { g with mode, isTemplate := false, source := none }

/-- Makes the group a template, which has no source of its own. -/
def makeTemplate (g : Group) : Group := { g with isTemplate := true, source := none }

/-- Gives the group a source of its own. -/
def setSource (g : Group) (i : InterfaceId) : Group := { g with isTemplate := false, source := some i }

def hasMember (g : Group) (i : InterfaceId) : Bool := g.members.contains i

def insertMember (g : Group) (i : InterfaceId) : Group :=
  { g with members := Ascending.insert InterfaceId.before i g.members }

/-- Takes an interface out of the group, as its source too. -/
def removeMember (g : Group) (i : InterfaceId) : Group :=
  { g with
    members := g.members.filter (· ≠ i)
    source := if g.source = some i then none else g.source }

/-- Members other than the source. -/
def destinations (g : Group) : List InterfaceId := g.members.filter (fun m => some m ≠ g.source)

/-- The edges that the group calls for, in ascending order. -/
def edges (g : Group) : List Edge :=
  match g.mode with
  | .push =>
    if g.isTemplate then []
    else match g.source with
      | some source => g.destinations.map (source, ·)
      | none => []
  | .merge | .relay =>
    g.members.flatMap fun s => (g.members.filter (· ≠ s)).map (s, ·)

end Group
end MulticastRelay
