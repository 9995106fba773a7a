import MulticastRelay.Proofs.Adapter.Effects

/-! # Metered sources

A meter on the source of an adapter counts the frames that the source yields. It changes nothing
else: asked the same, an adapter goes the same way with a meter and without.
-/
namespace MulticastRelay

structure Metered (σ : Type) where
  source : σ
  yielded : Nat := 0

namespace Metered

variable {σ : Type} [FrameSource σ]

def pull (m : Metered σ) (pool : Pool) : Option (Buffer × Bool) × Metered σ × Pool :=
  let (pulled, source, pool) := FrameSource.pull m.source pool
  (pulled, ⟨source, m.yielded + pulled.toList.length⟩, pool)

instance : FrameSource (Metered σ) where
  pull
  suspend m := { m with source := FrameSource.suspend m.source }
  resume m := { m with source := FrameSource.resume m.source }

end Metered

namespace Adapter

variable {σ : Type}

/-- The adapter with a new meter on its source. -/
def metered (a : Adapter σ) : Adapter (Metered σ) :=
  { a with source := a.source.map fun source => { source } }

/-- The adapter without the meter. -/
def unmetered (a : Adapter (Metered σ)) : Adapter σ := { a with source := a.source.map (·.source) }

/-- What the meter shows. -/
def reading (a : Adapter (Metered σ)) : Nat := (a.source.map (·.yielded)).getD 0

@[simp] theorem unmetered_metered (a : Adapter σ) : a.metered.unmetered = a := by
  cases a with
  | mk _ _ _ _ _ _ _ _ _ source => cases source <;> rfl

@[simp] theorem reading_metered (a : Adapter σ) : a.metered.reading = 0 := by
  cases a with
  | mk _ _ _ _ _ _ _ _ _ source => cases source <;> rfl

/-! ## Requests -/

/-- Everything that may be asked of an adapter, frames queued directly included; its elements are
open to the caller. -/
inductive Request (σ : Type) where
  | event (e : Event σ)
  | enqueue (pool : Pool) (buffer : Buffer) (priority : Bool)
  | elements (change : List Element → List Element)

def answer [FrameSource σ] (a : Adapter σ) : Request σ → Except ClockFault (Adapter σ)
  | .event e => a.next e
  | .enqueue pool buffer priority => .ok (a.enqueue pool buffer priority).2.1
  | .elements change => .ok { a with composite.elements := change a.composite.elements }

section Shown

variable [FrameSource σ] {a b : Adapter σ} {x : Except ClockFault (Adapter σ)} {r : Request σ}

theorem answer_after (hx : x = .ok a) (h : a.answer r = .ok b) : (x >>= (·.answer r)) = .ok b := by
  subst hx
  exact h

/-- What a run shows at its end is so after its last request. -/
theorem answer_of_shown {β : Type} {f : Adapter σ → β} {v : β} (hx : x = .ok a)
    (h : (x >>= (·.answer r)).toOption.map f = some v) : ∃ b, a.answer r = .ok b ∧ f b = v := by
  subst hx
  exact ok_of_shown h

end Shown

/-- The same event where sources have meters; a source is bound with a new one. -/
def Event.metered : Event σ → Event (Metered σ)
  | .addElement e => .addElement e
  | .removeElement name => .removeElement name
  | .setElementTx name on => .setElementTx name on
  | .setElementRx name on => .setElementRx name on
  | .setPolicy policy => .setPolicy policy
  | .bindVif name address => .bindVif name address
  | .unbindVif => .unbindVif
  | .setShadow shadow => .setShadow shadow
  | .bindSource source => .bindSource { source }
  | .unbindSource => .unbindSource
  | .setRateLimit rate now => .setRateLimit rate now
  | .setQueueDepth pool depth => .setQueueDepth pool depth
  | .send f => .send f
  | .transmit pool f priority now => .transmit pool f priority now
  | .onTimer pool now => .onTimer pool now
  | .onOutputReady pool now => .onOutputReady pool now
  | .onSourceReady pool now => .onSourceReady pool now
  | .close pool => .close pool
  | .channels change => .channels change
  | .producer change => .producer fun m => { m with source := change m.source }

def Request.metered : Request σ → Request (Metered σ)
  | .event e => .event e.metered
  | .enqueue pool buffer priority => .enqueue pool buffer priority
  | .elements change => .elements change

/-! ## Helpers with and without a meter -/

section Helpers

variable (a : Adapter (Metered σ)) (f : Frame) (n : Nat) (now : Instant)

theorem unmetered_noteOutcome (o : SendOutcome) :
    a.unmetered.noteOutcome o n = (a.noteOutcome o n).unmetered := by
  cases o <;> rfl

theorem unmetered_send : a.unmetered.send f = ((a.send f).1, (a.send f).2.unmetered) :=
  Prod.ext rfl (unmetered_noteOutcome { a with composite := _ } f.length _)

theorem unmetered_armAfter (delay : Option Duration) :
    a.unmetered.armAfter now delay = (a.armAfter now delay).map unmetered := by
  cases delay with
  | none => rfl
  | some d =>
    simp only [armAfter]
    cases PacingTimer.arm now d <;> rfl

theorem unmetered_hasWork : a.unmetered.hasWork = a.hasWork := by
  cases a with
  | mk _ _ _ _ _ _ _ _ _ source => cases source <;> rfl

theorem unmetered_scheduleNext :
    a.unmetered.scheduleNext n now = (a.scheduleNext n now).map unmetered := by
  have hr : a.unmetered.rate = a.rate := rfl
  unfold scheduleNext
  rw [hr]
  cases hl : a.rate with
  | suspended => exact unmetered_armAfter a now none
  | unlimited =>
    dsimp only
    rw [unmetered_hasWork]
    exact unmetered_armAfter a now _
  | bytesPerSecond rate =>
    dsimp only
    cases RateLimit.interval (.bytesPerSecond rate) n with
    | error e => rfl
    | ok delay => exact unmetered_armAfter a now delay

theorem unmetered_armRetry :
    a.unmetered.armRetry n now = (a.armRetry n now).map unmetered := by
  have hr : a.unmetered.rate = a.rate := rfl
  unfold armRetry
  rw [hr]
  cases a.rate.retryDelay n with
  | error e => rfl
  | ok delay => exact unmetered_armAfter a now delay

end Helpers

/-! ## Queueing with and without a meter -/

section Queueing

variable [FrameSource σ] (a : Adapter (Metered σ)) (pool : Pool)

theorem unmetered_suspendSource : a.unmetered.suspendSource = a.suspendSource.unmetered := by
  cases a with
  | mk _ _ _ _ _ _ _ _ _ source suspended => cases source <;> cases suspended <;> rfl

theorem unmetered_resumeSource : a.unmetered.resumeSource = a.resumeSource.unmetered := by
  have hs : a.unmetered.sourceSuspended = a.sourceSuspended := rfl
  have hq : a.unmetered.queue = a.queue := rfl
  unfold resumeSource
  rw [hs, hq]
  split
  · rfl
  · cases a with
    | mk _ _ _ _ _ _ _ _ _ source => cases source <;> rfl

theorem unmetered_enqueue (buffer : Buffer) (priority : Bool) :
    a.unmetered.enqueue pool buffer priority =
      ((a.enqueue pool buffer priority).1, (a.enqueue pool buffer priority).2.1.unmetered,
        (a.enqueue pool buffer priority).2.2) := by
  have hq : a.unmetered.queue = a.queue := rfl
  unfold enqueue
  rw [hq]
  cases a.queue.push buffer priority with
  | ok queue =>
    dsimp only
    split
    · exact congrArg (fun b => (_, b, _)) (unmetered_suspendSource { a with queue, counters := _ })
    · rfl
  | error e =>
    cases e with
    | full => exact congrArg (fun b => (_, b, _)) (unmetered_suspendSource (a.countDropped 1))
    | disabled => rfl

theorem unmetered_hold (f : Frame) (priority : Bool) (reason : AdapterError) :
    a.unmetered.hold pool f priority reason =
      ((a.hold pool f priority reason).1, (a.hold pool f priority reason).2.1.unmetered,
        (a.hold pool f priority reason).2.2) := by
  have hq : a.unmetered.queue = a.queue := rfl
  unfold hold
  rw [hq]
  split
  · rfl
  · cases pool.takeWith? f with
    | none => rfl
    | some taken =>
      dsimp only
      rw [unmetered_enqueue]

theorem unmetered_pull :
    a.unmetered.pull pool =
      ((a.pull pool).1, (a.pull pool).2.1.unmetered, (a.pull pool).2.2) := by
  cases a with
  | mk _ _ _ _ _ _ _ _ _ source => cases source <;> rfl

theorem unmetered_refill :
    a.unmetered.refill pool = ((a.refill pool).1.unmetered, (a.refill pool).2) := by
  have hs : a.unmetered.sourceSuspended = a.sourceSuspended := rfl
  have hq : a.unmetered.queue = a.queue := rfl
  unfold refill
  rw [hs, hq, unmetered_pull]
  split
  · rfl
  · rcases a.pull pool with ⟨_ | ⟨buffer, priority⟩, b, rest⟩
    · rfl
    · dsimp only
      rw [unmetered_enqueue]

theorem unmetered_advance :
    a.unmetered.advance pool = ((a.advance pool).1.unmetered, (a.advance pool).2) := by
  have hq : a.unmetered.queue = a.queue := rfl
  unfold advance
  rw [hq]
  cases a.queue.pop? with
  | none =>
    dsimp only
    rw [unmetered_resumeSource, unmetered_refill]
  | some popped =>
    have hr := unmetered_resumeSource { a with queue := popped.2 }
    exact (congrArg (refill · (pool.put popped.1)) hr).trans (unmetered_refill _ _)

theorem unmetered_setQueueDepth (depth : QueueDepth) :
    a.unmetered.setQueueDepth pool depth =
      ((a.setQueueDepth pool depth).1.unmetered, (a.setQueueDepth pool depth).2) :=
  Prod.ext (unmetered_resumeSource (countDropped { a with queue := _ } _)) rfl

end Queueing

/-! ## Sending with and without a meter -/

section Sending

variable [FrameSource σ] (a : Adapter (Metered σ)) (pool : Pool) (now : Instant)

/-- The result of a step without the meter. -/
def unmeteredStep (r : Except ClockFault (Adapter (Metered σ) × Pool)) :
    Except ClockFault (Adapter σ × Pool) :=
  r.map fun (a, pool) => (a.unmetered, pool)

theorem unmetered_transmit (f : Frame) (priority : Bool) :
    a.unmetered.transmit pool f priority now =
      (a.transmit pool f priority now).map fun (r, b, rest) => (r, b.unmetered, rest) := by
  have he : a.unmetered.elements = a.elements := rfl
  have hi : a.unmetered.isIdle = a.isIdle := rfl
  have hq : a.unmetered.queue = a.queue := rfl
  have hr : a.unmetered.rate = a.rate := rfl
  unfold transmit
  rw [he, hi, hq, hr, unmetered_send]
  split
  · rfl
  · split
    · rcases a.send f with ⟨_ | _ | _, b⟩
      · dsimp only
        rw [unmetered_scheduleNext]
        cases b.scheduleNext f.length now <;> rfl
      · exact congrArg Except.ok (unmetered_hold b pool f priority .blocked)
      · have hb : b.unmetered.queue = b.queue := rfl
        dsimp only
        rw [hb]
        split
        · rw [unmetered_armRetry]
          cases b.armRetry f.length now with
          | error e => rfl
          | ok c => exact congrArg Except.ok (unmetered_hold c pool f priority .sendFailed)
        · exact congrArg Except.ok (unmetered_hold b pool f priority .sendFailed)
    · exact congrArg Except.ok (unmetered_hold a pool f priority _)

theorem unmetered_serveQueue (front : Buffer) :
    a.unmetered.serveQueue pool front now = unmeteredStep (a.serveQueue pool front now) := by
  unfold serveQueue
  rw [unmetered_send]
  rcases a.send front.octets with ⟨_ | _ | _, b⟩
  · dsimp only
    rw [unmetered_advance, unmetered_scheduleNext]
    cases (b.advance pool).1.scheduleNext front.length now <;> rfl
  · rfl
  · dsimp only
    rw [unmetered_armRetry]
    cases b.armRetry front.length now <;> rfl

theorem unmetered_servePulled (buffer : Buffer) (priority : Bool) :
    a.unmetered.servePulled pool buffer priority now =
      unmeteredStep (a.servePulled pool buffer priority now) := by
  unfold servePulled
  rw [unmetered_send]
  rcases a.send buffer.octets with ⟨_ | _ | _, b⟩
  · dsimp only
    rw [unmetered_scheduleNext]
    cases b.scheduleNext buffer.length now <;> rfl
  · dsimp only
    rw [unmetered_enqueue]
    rfl
  · dsimp only
    rw [unmetered_enqueue]
    rcases b.enqueue pool buffer priority with ⟨_ | _, c, rest⟩
    · rfl
    · dsimp only
      rw [unmetered_armRetry]
      cases c.armRetry buffer.length now <;> rfl

theorem unmetered_service :
    a.unmetered.service pool now = unmeteredStep (a.service pool now) := by
  have hr : a.unmetered.rate = a.rate := rfl
  have hq : a.unmetered.queue = a.queue := rfl
  have hs : a.unmetered.sourceSuspended = a.sourceSuspended := rfl
  unfold service
  rw [hr, hq, hs, unmetered_pull]
  split
  · rfl
  · cases a.queue.front? with
    | some front => exact unmetered_serveQueue a pool now front
    | none =>
      dsimp only
      split
      · rfl
      · rcases a.pull pool with ⟨_ | ⟨buffer, priority⟩, b, rest⟩
        · rfl
        · exact unmetered_servePulled b rest now buffer priority

theorem unmetered_onTimer :
    a.unmetered.onTimer pool now =
      (a.onTimer pool now).map fun (fired, b, rest) => (fired, b.unmetered, rest) := by
  have ht : a.unmetered.timer = a.timer := rfl
  unfold onTimer
  rw [ht]
  rcases a.timer.fire now with ⟨_ | _, timer⟩
  · rfl
  · dsimp only
    by_cases hp : a.outputPending = true
    · have hu : a.unmetered.outputPending = true := hp
      rw [if_pos hp, if_pos hu]
      rfl
    · have hu : ¬a.unmetered.outputPending = true := hp
      have hs : { a.unmetered with timer }.service pool now =
          unmeteredStep ({ a with timer }.service pool now) := unmetered_service { a with timer } _ _
      rw [if_neg hp, if_neg hu, hs]
      cases { a with timer }.service pool now <;> rfl

theorem unmetered_onOutputReady :
    a.unmetered.onOutputReady pool now = unmeteredStep (a.onOutputReady pool now) := by
  have ho : a.unmetered.outputPending = a.outputPending := rfl
  have hb : { a.unmetered with outputPending := false }.mapElements Element.stopOutput =
      ({ a with outputPending := false }.mapElements Element.stopOutput).unmetered := rfl
  unfold onOutputReady
  rw [ho, hb]
  split
  · rfl
  · generalize { a with outputPending := false }.mapElements Element.stopOutput = b
    have hr : b.unmetered.rate = b.rate := rfl
    have ht : b.unmetered.timer = b.timer := rfl
    dsimp only
    rw [hr, ht]
    split
    · exact unmetered_service b pool now
    · rfl

theorem unmetered_onSourceReady :
    a.unmetered.onSourceReady pool now = unmeteredStep (a.onSourceReady pool now) := by
  have hi : a.unmetered.isIdle = a.isIdle := rfl
  unfold onSourceReady
  rw [hi]
  split
  · exact unmetered_service a pool now
  · rfl

end Sending

/-! ## Requests with and without a meter -/

section Requests

variable (a : Adapter (Metered σ))

theorem unmetered_setRateLimit (rate : Float) (now : Instant) :
    a.unmetered.setRateLimit rate now = (a.setRateLimit rate now).map unmetered := by
  have hr : a.unmetered.rate = a.rate := rfl
  have ht : a.unmetered.timer = a.timer := rfl
  have ho : a.unmetered.outputPending = a.outputPending := rfl
  unfold setRateLimit
  dsimp only
  rw [hr, ht, ho]
  cases RateLimit.ofBytesPerSecond rate with
  | suspended => rfl
  | bytesPerSecond new =>
    dsimp only
    split
    · cases a.rate with
      | bytesPerSecond previous =>
        dsimp only
        cases a.timer.rescale now (previous / new) <;> rfl
      | unlimited => rfl
      | suspended => rfl
    · split
      · cases PacingTimer.arm now 0 <;> rfl
      · rfl
  | unlimited =>
    dsimp only
    split
    · cases PacingTimer.arm now 0 <;> rfl
    · rfl

theorem unmetered_removeElement (name : String) :
    a.unmetered.orSame ((a.unmetered.removeElement name).map (·.2)) =
      (a.orSame ((a.removeElement name).map (·.2))).unmetered := by
  have hc : a.unmetered.composite = a.composite := rfl
  unfold removeElement
  rw [hc]
  cases a.composite.detach? name <;> rfl

theorem unmetered_modifyElement (name : String) (change : Element → Element) :
    a.unmetered.orSame (a.unmetered.modifyElement name change) =
      (a.orSame (a.modifyElement name change)).unmetered := by
  have he : a.unmetered.element? name = a.element? name := rfl
  unfold modifyElement
  rw [he]
  split <;> rfl

variable [FrameSource σ]

theorem unmetered_next (e : Event σ) :
    a.unmetered.next e = (a.next e.metered).map unmetered := by
  cases e with
  | addElement e => rfl
  | removeElement name => exact congrArg Except.ok (unmetered_removeElement a name)
  | setElementTx name on => exact congrArg Except.ok (unmetered_modifyElement a name _)
  | setElementRx name on => exact congrArg Except.ok (unmetered_modifyElement a name _)
  | setPolicy policy => rfl
  | bindVif name address => rfl
  | unbindVif => rfl
  | setShadow shadow => rfl
  | bindSource source => rfl
  | unbindSource => rfl
  | setRateLimit rate now => exact unmetered_setRateLimit a rate now
  | setQueueDepth pool depth =>
    exact congrArg (fun r => Except.ok r.1) (unmetered_setQueueDepth a pool depth)
  | send f => exact congrArg (fun r => Except.ok r.2) (unmetered_send a f)
  | transmit pool f priority now =>
    simp only [next, Event.metered, unmetered_transmit]
    cases a.transmit pool f priority now <;> rfl
  | onTimer pool now =>
    simp only [next, Event.metered, unmetered_onTimer]
    cases a.onTimer pool now <;> rfl
  | onOutputReady pool now =>
    simp only [next, Event.metered, unmetered_onOutputReady]
    cases a.onOutputReady pool now <;> rfl
  | onSourceReady pool now =>
    simp only [next, Event.metered, unmetered_onSourceReady]
    cases a.onSourceReady pool now <;> rfl
  | close pool => rfl
  | channels change => rfl
  | producer change =>
    cases a with
    | mk _ _ _ _ _ _ _ _ _ source => cases source <;> rfl

theorem unmetered_answer (r : Request σ) :
    a.unmetered.answer r = (a.answer r.metered).map unmetered := by
  cases r with
  | event e => exact unmetered_next a e
  | enqueue pool buffer priority =>
    exact congrArg (fun r => Except.ok r.2.1) (unmetered_enqueue a pool buffer priority)
  | elements change => rfl

end Requests

end Adapter
end MulticastRelay
