import MulticastRelay.Adapter.Queue
import MulticastRelay.Adapter.Source
import MulticastRelay.Channel.Composite
import MulticastRelay.Time.PacingTimer
import MulticastRelay.Time.RateLimit
import MulticastRelay.Topology.Interface

/-! # Adapters

An adapter owns the sending side of one interface: its composite device, the pacing timer, the queue,
the wait for room in the channels, and the source that feeds it. The timer never runs while the adapter
waits for room.
-/
namespace MulticastRelay

inductive AdapterError where
  | noElements
  | unknownElement (name : String)
  | queueFull
  | queueDisabled
  | poolExhausted
  | blocked
  | suspended
  | sendFailed
deriving DecidableEq, Repr

def AdapterError.message : AdapterError → String
  | .noElements => "Adapter has no transport elements"
  | .unknownElement name => "Unknown transport element: " ++ name
  | .queueFull => "Transmission queue is full"
  | .queueDisabled => "Queuing is disabled"
  | .poolExhausted => "Buffer pool exhausted"
  | .blocked => "Output blocked"
  | .suspended => "Transmission suspended"
  | .sendFailed => "Send failed"

/-- The software interface bound to an adapter, whose frames leave under its address. -/
structure VifBinding where
  name : String
  address : LinkAddress
deriving DecidableEq, Repr

structure AdapterCounters where
  framesSent : Nat := 0
  bytesSent : Nat := 0
  framesQueued : Nat := 0
  framesDropped : Nat := 0
  sendErrors : Nat := 0
  blockedEvents : Nat := 0
  backpressureEvents : Nat := 0
deriving DecidableEq, Repr

/-- The sending side of an interface; `σ` is the type of its frame source. -/
structure Adapter (σ : Type) where
  owner : InterfaceId
  name : String
  composite : Composite := {}
  vif : Option VifBinding := none
  /-- Frames keep their source address. -/
  shadow : Bool := false
  rate : RateLimit := .unlimited
  timer : PacingTimer := .idle
  /-- Waiting for room in the channels. -/
  outputPending : Bool := false
  queue : FrameQueue := {}
  source : Option σ := none
  sourceSuspended : Bool := false
  counters : AdapterCounters := {}
deriving Repr

namespace Adapter

variable {σ : Type}

def new (owner : InterfaceId) (name : String) : Adapter σ := { owner, name }

def before (a b : Adapter σ) : Bool := a.owner.before b.owner

/-! ## Elements -/

def elements (a : Adapter σ) : List Element := a.composite.elements

def element? (a : Adapter σ) (name : String) : Option Element := a.composite.element? name

def mapElements (a : Adapter σ) (f : Element → Element) : Adapter σ :=
  { a with composite := a.composite.map f }

/-- Attaches an element, registered for capture if it captures and for room if the adapter waits. -/
def addElement (a : Adapter σ) (e : Element) : Adapter σ :=
  let e := if e.rxEnabled then e.startInput else e
  let e := if a.outputPending && e.txEnabled then e.startOutput else e
  { a with composite.elements := a.composite.elements ++ [e] }

/-- Detaches the first element of a name, which no longer waits for room. -/
def removeElement (a : Adapter σ) (name : String) : Except AdapterError (Element × Adapter σ) :=
  match a.composite.detach? name with
  | some (e, composite) => .ok (e.stopOutput, { a with composite })
  | none => .error (.unknownElement name)

def modifyElement (a : Adapter σ) (name : String) (f : Element → Element) :
    Except AdapterError (Adapter σ) :=
  if (a.element? name).isSome then
    .ok { a with composite.elements := Composite.modifyFirst name f a.composite.elements }
  else .error (.unknownElement name)

/-- Enables or disables transmission on an element; while the adapter waits for room, an enabled
element waits with it. -/
def setElementTx (a : Adapter σ) (name : String) (on : Bool) : Except AdapterError (Adapter σ) :=
  a.modifyElement name fun e =>
    let e := e.setTx on
    if !on then e.stopOutput else if a.outputPending then e.startOutput else e

def setElementRx (a : Adapter σ) (name : String) (on : Bool) : Except AdapterError (Adapter σ) :=
  a.modifyElement name (·.setRx on)

def setPolicy (a : Adapter σ) (policy : Policy) : Adapter σ := { a with composite.policy := policy }

/-! ## Software interface and source -/

def bindVif (a : Adapter σ) (name : String) (address : LinkAddress) : Adapter σ :=
  { a with vif := some ⟨name, address⟩ }

def unbindVif (a : Adapter σ) : Adapter σ := { a with vif := none }

def setShadow (a : Adapter σ) (shadow : Bool) : Adapter σ := { a with shadow }

/-- The source address under which frames leave, if not their own. -/
def sourceOverride (a : Adapter σ) : Option LinkAddress :=
  match a.vif with
  | some vif => if a.shadow then none else some vif.address
  | none => none

def bindSource (a : Adapter σ) (source : σ) : Adapter σ :=
  { a with source := some source, sourceSuspended := false }

def unbindSource (a : Adapter σ) : Adapter σ := { a with source := none, sourceSuspended := false }

def hasSource (a : Adapter σ) : Bool := a.source.isSome

/-! ## Questions -/

def queueLength (a : Adapter σ) : Nat := a.queue.length

def deadline? (a : Adapter σ) : Option Instant := a.timer.deadline

/-- Nothing keeps the next frame from going out at once. -/
def isIdle (a : Adapter σ) : Bool := !a.timer.isArmed && !a.outputPending && !a.rate.isSuspended

/-- Something may be sent next: a queued frame, or one from a source that is not held back. -/
def hasWork (a : Adapter σ) : Bool := !a.queue.isEmpty || (a.source.isSome && !a.sourceSuspended)

/-! ## Backpressure -/

def countDropped (a : Adapter σ) (n : Nat) : Adapter σ :=
  { a with counters.framesDropped := a.counters.framesDropped + n }

variable [FrameSource σ]

/-- Holds the source back. -/
def suspendSource (a : Adapter σ) : Adapter σ :=
  if a.sourceSuspended then a
  else match a.source with
    | none => a
    | some source =>
      { a with
        source := some (FrameSource.suspend source)
        sourceSuspended := true
        counters.backpressureEvents := a.counters.backpressureEvents + 1 }

/-- Lets a source that was held back go on, unless the queue is still full. -/
def resumeSource (a : Adapter σ) : Adapter σ :=
  if !a.sourceSuspended || (a.queue.depth.isEnabled && a.queue.isFull) then a
  else { a with source := a.source.map FrameSource.resume, sourceSuspended := false }

/-! ## Queue and rate -/

/-- Changes the depth of the queue. Frames that a disabled queue loses count as dropped. -/
def setQueueDepth (a : Adapter σ) (pool : Pool) (depth : QueueDepth) : Adapter σ × Pool :=
  let (lost, queue) := a.queue.setDepth depth
  (({ a with queue }.countDropped lost.length).resumeSource, pool.putAll lost)

/-- Queues a buffer and holds the source back once the queue is full. A rejected buffer goes back to
the pool. -/
def enqueue (a : Adapter σ) (pool : Pool) (buffer : Buffer) (priority : Bool) :
    Except AdapterError Unit × Adapter σ × Pool :=
  match a.queue.push buffer priority with
  | .ok queue =>
    let a := { a with queue, counters.framesQueued := a.counters.framesQueued + 1 }
    (.ok (), if a.queue.isFull then a.suspendSource else a, pool)
  | .error .full => (.error .queueFull, (a.countDropped 1).suspendSource, pool.put buffer)
  | .error .disabled => (.error .queueDisabled, a.countDropped 1, pool.put buffer)

omit [FrameSource σ]

/-- Changes the rate. A running pacing wait is scaled by the old over the new rate, so that throughput
does not jump; leaving the unlimited or suspended state fires the timer at once, unless the adapter
waits for room. -/
def setRateLimit (a : Adapter σ) (bytesPerSecond : Float) (now : Instant) :
    Except ClockFault (Adapter σ) :=
  let old := a.rate
  let a := { a with rate := .ofBytesPerSecond bytesPerSecond }
  match a.rate with
  | .suspended => .ok { a with timer := .idle }
  | .bytesPerSecond new =>
    if a.timer.isArmed then
      match old with
      | .bytesPerSecond previous =>
        (a.timer.rescale now (previous / new)).map fun timer => { a with timer }
      | _ => .ok a
    else if !old.isPaced && !a.outputPending then
      (PacingTimer.arm now 0).map fun timer => { a with timer }
    else .ok a
  | .unlimited =>
    if !a.outputPending && (a.timer.isArmed || old.isSuspended) then
      (PacingTimer.arm now 0).map fun timer => { a with timer }
    else .ok a

/-- Closes every element and drops what is queued. -/
def close (a : Adapter σ) (pool : Pool) : Adapter σ × Pool :=
  let (lost, queue) := a.queue.clear
  (({ a with timer := .idle, outputPending := false, queue }.countDropped lost.length).mapElements
    Element.close, pool.putAll lost)

end Adapter
end MulticastRelay
