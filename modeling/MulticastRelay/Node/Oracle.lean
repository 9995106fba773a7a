import MulticastRelay.Frame.Basic
import MulticastRelay.Topology.Interface

/-! # Relay decisions

Selecting relays and telling duplicates apart is left to an oracle, asked once for every captured
frame. An oracle may remember what it was asked: its answer is a function of the captures so far and of
the present one.
-/
namespace MulticastRelay

/-- A captured frame as the oracle sees it. -/
structure Capture where
  frame : Frame
  source : LinkAddress
  destination : LinkAddress
  ingress : Interface
deriving DecidableEq, Repr

structure Decision where
  destinations : List InterfaceId := []
  /-- The frame was seen before and must not be relayed. -/
  duplicate : Bool := false
deriving DecidableEq, Repr

structure Oracle where
  /-- Earlier captures, the latest first. -/
  past : List Capture := []
  rule : List Capture → Capture → Decision

namespace Oracle

/-- Asks for a decision. -/
def decide (o : Oracle) (c : Capture) : Decision × Oracle :=
  (o.rule o.past c, { o with past := c :: o.past })

/-- An oracle without a memory. -/
def ofRule (rule : Capture → Decision) : Oracle := { rule := fun _ => rule }

/-- Every frame goes to every associate of its ingress. -/
def floodRule (c : Capture) : Decision := { destinations := c.ingress.targets }

/-- Classical flooding. -/
def flood : Oracle := ofRule floodRule

/-- The same decision for every frame. -/
def fixed (d : Decision) : Oracle := ofRule fun _ => d

/-- Flooding that calls a frame with the octets of an earlier one a duplicate. -/
def withoutRepeats : Oracle :=
  { rule := fun past c => if past.any (·.frame == c.frame) then { duplicate := true } else floodRule c }

/-- Flooding that sends no frame from or to a link address. -/
def excluding (a : LinkAddress) : Oracle :=
  ofRule fun c => if c.source = a ∨ c.destination = a then {} else floodRule c

end Oracle
end MulticastRelay
