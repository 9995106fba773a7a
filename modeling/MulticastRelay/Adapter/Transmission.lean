import MulticastRelay.Adapter.Basic

/-! # Transmission

How frames leave an adapter. A frame handed to an idle adapter goes straight out; otherwise, and when
the channels refuse it, it is queued. The timer, room in the channels and input at the source wake the
adapter to send the next frame.
-/
namespace MulticastRelay

/-- How a frame handed to an adapter was taken. -/
inductive Delivery where
  | sent
  | queued
deriving DecidableEq, Repr

namespace Adapter

variable {σ : Type}

/-- Waits for room: every element enabled for transmission is registered and the timer stops. -/
def waitForRoom (a : Adapter σ) : Adapter σ :=
  { a with outputPending := true, timer := .idle }.mapElements fun e =>
    if e.txEnabled then e.startOutput else e

/-- Counts the outcome of a send; a full channel starts the wait for room. -/
def noteOutcome (a : Adapter σ) (outcome : SendOutcome) (length : Nat) : Adapter σ :=
  match outcome with
  | .accepted =>
    { a with
      counters.framesSent := a.counters.framesSent + 1
      counters.bytesSent := a.counters.bytesSent + length }
  | .blocked => { a with counters.blockedEvents := a.counters.blockedEvents + 1 }.waitForRoom
  | .failed => { a with counters.sendErrors := a.counters.sendErrors + 1 }

/-- Sends a frame now, by the policy and under the address that the software interface gives it. -/
def send (a : Adapter σ) (f : Frame) : SendOutcome × Adapter σ :=
  let (outcome, composite) := a.composite.send f a.sourceOverride
  (outcome, { a with composite }.noteOutcome outcome f.length)

/-- Sets the timer to a delay, or stops it when there is none. -/
def armAfter (a : Adapter σ) (now : Instant) : Option Duration → Except ClockFault (Adapter σ)
  | some delay => (PacingTimer.arm now delay).map fun timer => { a with timer }
  | none => .ok { a with timer := .idle }

/-- Sets the timer for the frame after one of so many bytes. Without pacing it runs only if there is
something to send. -/
def scheduleNext (a : Adapter σ) (length : Nat) (now : Instant) : Except ClockFault (Adapter σ) :=
  match a.rate with
  | .bytesPerSecond _ => do a.armAfter now (← a.rate.interval length)
  | .unlimited => a.armAfter now (if a.hasWork then some 0 else none)
  | .suspended => a.armAfter now none

/-- Sets the timer for another attempt with a frame that failed. -/
def armRetry (a : Adapter σ) (length : Nat) (now : Instant) : Except ClockFault (Adapter σ) := do
  a.armAfter now (← a.rate.retryDelay length)

variable [FrameSource σ]

/-- Queues a copy of a frame that could not go out, for the reason given. -/
def hold (a : Adapter σ) (pool : Pool) (f : Frame) (priority : Bool) (reason : AdapterError) :
    Except AdapterError Delivery × Adapter σ × Pool :=
  if !a.queue.depth.isEnabled then (.error reason, a.countDropped 1, pool)
  else match pool.takeWith? f with
    | none => (.error .poolExhausted, a.countDropped 1, pool)
    | some (buffer, pool) =>
      let (result, a, pool) := a.enqueue pool buffer priority
      (result.map fun _ => .queued, a, pool)

/-- Delivers a frame routed to this interface. -/
def transmit (a : Adapter σ) (pool : Pool) (f : Frame) (priority : Bool) (now : Instant) :
    Except ClockFault (Except AdapterError Delivery × Adapter σ × Pool) :=
  if a.elements.isEmpty then .ok (.error .noElements, a, pool)
  else if a.isIdle && a.queue.isEmpty then
    match a.send f with
    | (.accepted, a) => do return (.ok .sent, ← a.scheduleNext f.length now, pool)
    | (.blocked, a) => .ok (a.hold pool f priority .blocked)
    | (.failed, a) => do
      let a ← if a.queue.depth.isEnabled then a.armRetry f.length now else pure a
      return a.hold pool f priority .sendFailed
  else .ok (a.hold pool f priority (if a.rate.isSuspended then .suspended else .blocked))

/-- Pulls from the source. -/
def pull (a : Adapter σ) (pool : Pool) : Option (Buffer × Bool) × Adapter σ × Pool :=
  match a.source with
  | none => (none, a, pool)
  | some source =>
    let (pulled, source, pool) := FrameSource.pull source pool
    (pulled, { a with source := some source }, pool)

/-- Moves a frame from the source to the queue, if both allow it. -/
def refill (a : Adapter σ) (pool : Pool) : Adapter σ × Pool :=
  if a.sourceSuspended || !a.queue.depth.isEnabled || a.queue.isFull then (a, pool)
  else match a.pull pool with
    | (some (buffer, priority), a, pool) => (a.enqueue pool buffer priority).2
    | (none, a, pool) => (a, pool)

/-- Drops the frame that went out and refills the queue from the source. -/
def advance (a : Adapter σ) (pool : Pool) : Adapter σ × Pool :=
  match a.queue.pop? with
  | some (buffer, queue) => { a with queue }.resumeSource.refill (pool.put buffer)
  | none => a.resumeSource.refill pool

/-- Sends the frame at the head of the queue. -/
def serveQueue (a : Adapter σ) (pool : Pool) (front : Buffer) (now : Instant) :
    Except ClockFault (Adapter σ × Pool) :=
  match a.send front.octets with
  | (.accepted, a) => do
    let (a, pool) := a.advance pool
    return (← a.scheduleNext front.length now, pool)
  | (.failed, a) => do return (← a.armRetry front.length now, pool)
  | (.blocked, a) => .ok (a, pool)

/-- Sends a frame pulled from the source, or queues it if it cannot go out. -/
def servePulled (a : Adapter σ) (pool : Pool) (buffer : Buffer) (priority : Bool) (now : Instant) :
    Except ClockFault (Adapter σ × Pool) :=
  match a.send buffer.octets with
  | (.accepted, a) => do return (← a.scheduleNext buffer.length now, pool.put buffer)
  | (.blocked, a) => .ok (a.enqueue pool buffer priority).2
  | (.failed, a) =>
    match a.enqueue pool buffer priority with
    | (.ok _, a, pool) => do return (← a.armRetry buffer.length now, pool)
    | (.error _, a, pool) => .ok (a, pool)

/-- Sends the next frame: from the queue, else from the source. -/
def service (a : Adapter σ) (pool : Pool) (now : Instant) : Except ClockFault (Adapter σ × Pool) :=
  if a.rate.isSuspended then .ok ({ a with timer := .idle }, pool)
  else match a.queue.front? with
    | some front => a.serveQueue pool front now
    | none =>
      if a.sourceSuspended then .ok (a, pool)
      else match a.pull pool with
        | (some (buffer, priority), a, pool) => a.servePulled pool buffer priority now
        | (none, a, pool) => .ok (a, pool)

/-- Fires the timer if it is due, and says whether it was. -/
def onTimer (a : Adapter σ) (pool : Pool) (now : Instant) :
    Except ClockFault (Bool × Adapter σ × Pool) :=
  match a.timer.fire now with
  | (false, _) => .ok (false, a, pool)
  | (true, timer) =>
    let a := { a with timer }
    if a.outputPending then .ok (true, a, pool)
    else do return (true, ← a.service pool now)

/-- There is room in a channel again. -/
def onOutputReady (a : Adapter σ) (pool : Pool) (now : Instant) :
    Except ClockFault (Adapter σ × Pool) :=
  if !a.outputPending then .ok (a, pool)
  else
    let a := { a with outputPending := false }.mapElements Element.stopOutput
    if !a.rate.isSuspended && !a.timer.isArmed then a.service pool now else .ok (a, pool)

/-- The source has input. -/
def onSourceReady (a : Adapter σ) (pool : Pool) (now : Instant) :
    Except ClockFault (Adapter σ × Pool) :=
  if a.isIdle then a.service pool now else .ok (a, pool)

end Adapter
end MulticastRelay
