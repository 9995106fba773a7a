import MulticastRelay.Pool

/-! # Frame queue

Frames wait in two lanes under one bound: control traffic first, then the rest, each in order of
arrival. A bound may be lowered below the current length; what is queued stays.
-/
namespace MulticastRelay

inductive QueueDepth where
  /-- Nothing is queued. -/
  | disabled
  | unbounded
  | bounded (limit : Nat)
deriving DecidableEq, Repr

namespace QueueDepth

/-- A configured depth: zero is none, below zero is no limit. -/
def ofConfig (n : Int) : QueueDepth :=
  if n = 0 then .disabled else if n < 0 then .unbounded else .bounded n.toNat

/-- The depth in the configured encoding. -/
def toConfig : QueueDepth → Int
  | .disabled => 0
  | .unbounded => -1
  | .bounded n => n

def isEnabled : QueueDepth → Bool
  | .disabled => false
  | .unbounded | .bounded _ => true

end QueueDepth

inductive Rejected where
  | disabled
  | full
deriving DecidableEq, Repr

structure FrameQueue where
  depth : QueueDepth := .disabled
  priority : List Buffer := []
  ordinary : List Buffer := []
deriving DecidableEq, Repr

namespace FrameQueue

def new (depth : QueueDepth) : FrameQueue := { depth }

/-- The frames in the order in which they leave. -/
def toList (q : FrameQueue) : List Buffer := q.priority ++ q.ordinary

def length (q : FrameQueue) : Nat := q.priority.length + q.ordinary.length

def isEmpty (q : FrameQueue) : Bool := q.priority.isEmpty && q.ordinary.isEmpty

/-- Whether another frame would be rejected. -/
def isFull (q : FrameQueue) : Bool :=
  match q.depth with
  | .disabled => true
  | .unbounded => false
  | .bounded n => n ≤ q.length

/-- Queues a buffer, unless there is no queue or no room in it. -/
def push (q : FrameQueue) (b : Buffer) (priority : Bool) : Except Rejected FrameQueue :=
  if !q.depth.isEnabled then .error .disabled
  else if q.isFull then .error .full
  else if priority then .ok { q with priority := q.priority ++ [b] }
  else .ok { q with ordinary := q.ordinary ++ [b] }

/-- The frame that leaves next. -/
def front? (q : FrameQueue) : Option Buffer := q.priority.head? <|> q.ordinary.head?

def pop? (q : FrameQueue) : Option (Buffer × FrameQueue) :=
  match q.priority, q.ordinary with
  | b :: rest, _ => some (b, { q with priority := rest })
  | [], b :: rest => some (b, { q with ordinary := rest })
  | [], [] => none

/-- Empties the queue and hands back what was in it. -/
def clear (q : FrameQueue) : List Buffer × FrameQueue :=
  (q.toList, { q with priority := [], ordinary := [] })

/-- Changes the depth. Disabling the queue empties it; what was in it is handed back. -/
def setDepth (q : FrameQueue) (depth : QueueDepth) : List Buffer × FrameQueue :=
  if depth.isEnabled then ([], { q with depth }) else { q with depth }.clear

end FrameQueue
end MulticastRelay
