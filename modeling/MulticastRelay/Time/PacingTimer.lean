import MulticastRelay.Time.Instant

/-! # Pacing timer

A one-shot timer with at most one deadline. Arming replaces the deadline, firing consumes it once it
has passed.
-/
namespace MulticastRelay

structure PacingTimer where
  deadline : Option Instant := none
deriving DecidableEq, Repr

namespace PacingTimer

def idle : PacingTimer := {}

def isArmed (t : PacingTimer) : Bool := t.deadline.isSome

/-- Sets the deadline `delay` after `now`. -/
def arm (now : Instant) (delay : Duration) : Except ClockFault PacingTimer :=
  (Instant.after now delay).map fun due => { deadline := some due }

/-- Time left until the deadline, zero once it has passed. -/
def remaining? (t : PacingTimer) (now : Instant) : Option Duration := t.deadline.map (· - now)

def isDue (t : PacingTimer) (now : Instant) : Bool :=
  match t.deadline with
  | some deadline => deadline ≤ now
  | none => false

/-- Consumes a deadline that has passed, and says whether there was one. -/
def fire (t : PacingTimer) (now : Instant) : Bool × PacingTimer :=
  if t.isDue now then (true, idle) else (false, t)

/-- The larger of a factor and zero, where what is not a number counts as zero. -/
def scaleFactor (factor : Float) : Float := if 0 < factor then factor else 0

/-- Scales the time that is left. -/
def rescale (t : PacingTimer) (now : Instant) (factor : Float) : Except ClockFault PacingTimer :=
  match t.remaining? now with
  | none => .ok t
  | some left => do
    arm now (← Duration.ofSeconds (Duration.toSeconds left * scaleFactor factor))

end PacingTimer
end MulticastRelay
