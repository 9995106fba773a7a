import MulticastRelay.Node.Ingress

/-! # Turns

A node works in turns that never block. In a turn every adapter, in ascending order, fires its timer,
captures what its elements hold, and is told of room and of input at its source; then the captured
frames run through ingress in the order of capture.
-/
namespace MulticastRelay.Node

/-- Frames taken from one element in a turn. -/
def receiveBudget : Nat := 64

/-- Receives an inbound frame into a space; an outbound one counts as empty. -/
def captureInto (e : Element) (space : List UInt8) : Except Unit Nat × List UInt8 × Element :=
  match e.receive space with
  | (.ok (some (n, .inbound)), space, e) => (.ok n, space, e)
  | (.ok (some (_, .outbound)), space, e) => (.ok 0, space, e)
  | (.ok none, space, e) => (.error (), space, e)
  | (.error _, space, e) => (.error (), space, e)

/-- What was drained from elements: the buffers in order of capture, and whether the pool ran dry. -/
structure Drained where
  captured : List Buffer
  element : Element
  pool : Pool
  ranDry : Bool

/-- Receives from an element until nothing is pending, the budget is spent or the pool is dry. -/
def drain : (budget : Nat) → Element → Pool → Drained
  | 0, element, pool => ⟨[], element, pool, false⟩
  | budget + 1, element, pool =>
    match pool.take? with
    | none => ⟨[], element, pool, true⟩
    | some (buffer, rest) =>
      match buffer.fillWith (captureInto element) with
      | (.ok 0, buffer, element) => drain budget element (rest.put buffer)
      | (.ok _, buffer, element) =>
        let more := drain budget element rest
        { more with captured := buffer :: more.captured }
      | (.error _, buffer, element) => ⟨[], element, rest.put buffer, false⟩

/-- What one pass over the elements of an adapter found. -/
structure Sweep where
  captured : List Buffer := []
  elements : List Element := []
  pool : Pool
  dryRuns : Nat := 0
  writable : Bool := false

/-- Polls the elements of a list in order and drains those that capture. -/
def sweep : List Element → Pool → Sweep
  | [], pool => { pool }
  | e :: es, pool =>
    let ready := e.poll
    let d : Drained :=
      if ready.isReadable && e.rxEnabled then drain receiveBudget e pool else ⟨[], e, pool, false⟩
    let more := sweep es d.pool
    { captured := d.captured ++ more.captured
      elements := d.element :: more.elements
      pool := more.pool
      dryRuns := (if d.ranDry then 1 else 0) + more.dryRuns
      writable := ready.isWritable || more.writable }

/-- The part of a turn that belongs to one adapter; the frames it captured, in order. -/
def serve (n : Node) (id : InterfaceId) (now : Instant) : Except ClockFault (List Buffer × Node) :=
  match n.station? id with
  | none => .ok ([], n)
  | some a => do
    let (_, a, pool) ← a.onTimer n.stations.pool now
    let found := sweep a.elements pool
    let a := { a with composite.elements := found.elements }
    let (a, pool) ← if found.writable then a.onOutputReady found.pool now else pure (a, found.pool)
    let (a, pool) ← if a.hasSource then a.onSourceReady pool now else pure (a, pool)
    return (found.captured,
      { n with
        stations := { n.stations.replace a with pool }
        counters.poolExhausted := n.counters.poolExhausted + found.dryRuns })

/-- Serves adapters in order and collects what they captured. -/
def serveAll (n : Node) (now : Instant) :
    List InterfaceId → Except ClockFault (List (InterfaceId × Buffer) × Node)
  | [] => .ok ([], n)
  | id :: ids => do
    let (captured, n) ← n.serve id now
    let (more, n) ← n.serveAll now ids
    return (captured.map (id, ·) ++ more, n)

/-- Gives a buffer back to the pool. -/
def putBuffer (n : Node) (b : Buffer) : Node :=
  { n with stations := { n.stations with pool := n.stations.pool.put b } }

/-- Runs captured frames through ingress, giving each buffer back before the next frame. -/
def ingressAll (n : Node) (now : Instant) : List (InterfaceId × Buffer) → Except ClockFault Node
  | [] => .ok n
  | (id, buffer) :: rest => do
    let (_, n) ← n.ingress id buffer.octets now
    (n.putBuffer buffer).ingressAll now rest

/-- One turn; the number of frames captured. -/
def poll (n : Node) (now : Instant) : Except ClockFault (Nat × Node) := do
  let (captured, n) ← n.serveAll now (n.stations.adapters.map (·.owner))
  return (captured.length, ← n.ingressAll now captured)

/-- The earliest pacing deadline. -/
def nextDeadline? (n : Node) : Option Instant := (n.stations.adapters.filterMap (·.deadline?)).min?

/-- Closes every adapter of a list. -/
def closeAll : List Station → Pool → List Station × Pool
  | [], pool => ([], pool)
  | a :: rest, pool =>
    let (a, pool) := a.close pool
    let (rest, pool) := closeAll rest pool
    (a :: rest, pool)

def shutdown (n : Node) : Node :=
  let (adapters, pool) := closeAll n.stations.adapters n.stations.pool
  { n with stations := { adapters, pool } }

/-- When the next turn starts: at once after a turn that captured something, else at the next pacing
deadline but at most one idle tick later. -/
def nextTurn (n : Node) (captured : Nat) (now : Instant) : Instant :=
  if 0 < captured then now
  else
    let idle := now + n.settings.idleTick
    match n.nextDeadline? with
    | some deadline => max now (min deadline idle)
    | none => idle

/-- Runs a node in turns, each opened by an action that may change it, on a clock in which work takes
no time. The last action ends the run without a turn of its own, and every adapter is closed. -/
def run {ρ : Type} (n : Node) (now : Instant) :
    List (Instant → Node → Except ClockFault (ρ × Node)) → Except ClockFault (List ρ × Node)
  | [] => .ok ([], n.shutdown)
  | [last] => do
    let (r, n) ← last now n
    return ([r], n.shutdown)
  | action :: rest => do
    let (r, n) ← action now n
    let (captured, n) ← n.poll now
    let (rs, n) ← n.run (n.nextTurn captured now) rest
    return (r :: rs, n)

end MulticastRelay.Node
