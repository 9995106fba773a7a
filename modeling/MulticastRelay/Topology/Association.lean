import MulticastRelay.Topology.Membership

/-! # The association pass

A pass makes the edges that a group calls for and that are not there yet. It adds and never retracts:
an edge of another group keeps its owner and counts as a conflict, and the pass goes on.
-/
namespace MulticastRelay

/-- What a pass found. -/
structure AssociationReport where
  created : Nat := 0
  existing : Nat := 0
deriving DecidableEq, Repr

/-- The count that a pass keeps: the report, and the first conflict with the number of conflicts. -/
structure AssociationTally where
  report : AssociationReport := {}
  firstConflict : Option (Edge × GroupId) := none
  conflicts : Nat := 0
deriving DecidableEq, Repr

namespace AssociationTally

def note (a : AssociationTally) (edge : Edge) : EdgeStatus → AssociationTally
  | .created => { a with report.created := a.report.created + 1 }
  | .existing => { a with report.existing := a.report.existing + 1 }
  | .conflict owner =>
    { a with firstConflict := a.firstConflict <|> some (edge, owner), conflicts := a.conflicts + 1 }

/-- The outcome of the pass: the first conflict if there was one, else the report. -/
def outcome (a : AssociationTally) : Except TopologyError AssociationReport :=
  match a.firstConflict with
  | some (edge, owner) => .error (.conflict edge owner a.conflicts)
  | none => .ok a.report

end AssociationTally

namespace Topology

/-- Makes one edge for a group; an edge with an end that does not exist is passed over. -/
def connect (t : Topology) (owner : GroupId) (edge : Edge) (tally : AssociationTally) :
    Topology × AssociationTally :=
  match t.interface? edge.2, t.interface? edge.1 with
  | some _, some source =>
    let (status, source) := source.connect owner edge.2
    (t.modifyInterface edge.1 (fun _ => source), tally.note edge status)
  | _, _ => (t, tally)

/-- Makes the edges of a list in order. -/
def connectAll (t : Topology) (owner : GroupId) (edges : List Edge) : Topology × AssociationTally :=
  edges.foldl (fun (t, tally) edge => t.connect owner edge tally) (t, {})

/-- Brings the capture state of interfaces in line with their edges and flags. -/
def updateCapture (t : Topology) (members : List InterfaceId) : Topology :=
  members.foldl (fun t id => t.modifyInterface id Interface.updateCapture) t

/-- The association pass of a group. -/
def associate (t : Topology) (group : GroupId) : Except TopologyError AssociationReport × Topology :=
  match t.group? group with
  | none => (.error (.unknownGroup group.render), t)
  | some g =>
    let (t, tally) := t.connectAll group g.edges
    (tally.outcome, t.updateCapture g.members)

end Topology
end MulticastRelay
