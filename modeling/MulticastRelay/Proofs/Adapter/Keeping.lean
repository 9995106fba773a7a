import MulticastRelay.Proofs.Adapter.Metering
import MulticastRelay.Proofs.Adapter.WakeUp

/-! # What requests keep

Frames enter the queue from outside and from the source, and they depart one at a time, which may let
the source go on. What these steps keep of the source and the queue, every request keeps that does not
set one of them outright. In the same way the timer stops as a wait for room begins, and is set outside
of such a wait alone; what this keeps of the pace, every request keeps but a new rate.
-/
namespace MulticastRelay

/-- A buffer is queued exactly if there is a queue and room in it. -/
theorem FrameQueue.push_cases (q : FrameQueue) (b : Buffer) (priority : Bool) :
    (q.depth.isEnabled = false ∧ q.push b priority = .error .disabled) ∨
      (q.depth.isEnabled = true ∧ q.isFull = true ∧ q.push b priority = .error .full) ∨
      (q.depth.isEnabled = true ∧ q.isFull = false ∧
        ∃ r, q.push b priority = .ok r ∧ r.depth = q.depth) := by
  unfold push
  cases he : q.depth.isEnabled with
  | false => exact .inl ⟨rfl, rfl⟩
  | true =>
    cases hf : q.isFull with
    | true => exact .inr (.inl ⟨rfl, rfl, rfl⟩)
    | false => cases priority <;> exact .inr (.inr ⟨rfl, rfl, _, rfl, rfl⟩)

theorem FrameQueue.pop_depth {q r : FrameQueue} {b : Buffer} (h : q.pop? = some (b, r)) :
    r.depth = q.depth := by
  unfold pop? at h
  split at h <;> cases h <;> rfl

@[simp] theorem FrameQueue.setDepth_depth (q : FrameQueue) (depth : QueueDepth) :
    (q.setDepth depth).2.depth = depth := by
  unfold setDepth
  split <;> rfl

namespace Adapter

variable {σ : Type} {a b : Adapter σ} {n : Nat} {now : Instant} {pool rest : Pool}

/-! ## Source and queue -/

/-- What decides whether the source is held back. -/
def feed (a : Adapter σ) : Bool × Bool × FrameQueue := (a.source.isSome, a.sourceSuspended, a.queue)

theorem send_feed {f : Frame} {o : SendOutcome} (h : a.send f = (o, b)) : b.feed = a.feed := by
  rw [send_eq h]
  cases o <;> rfl

theorem scheduleNext_feed (h : a.scheduleNext n now = .ok b) : b.feed = a.feed := by
  obtain ⟨t, rfl, -⟩ := scheduleNext_cases h
  rfl

theorem armRetry_feed (h : a.armRetry n now = .ok b) : b.feed = a.feed := by
  obtain ⟨t, rfl, -⟩ := armRetry_cases h
  rfl

variable [FrameSource σ]

theorem pull_feed {r : Option (Buffer × Bool)} (h : a.pull pool = (r, b, rest)) :
    b.feed = a.feed := by
  unfold pull at h
  split at h
  · cases h
    rfl
  · rename_i hs
    cases h
    simp [feed, hs]

/-- A property of the source and the queue that is kept as frames are queued and depart. -/
structure FeedInvariant (P : Adapter σ → Prop) : Prop where
  of_feed {a b : Adapter σ} : P a → b.feed = a.feed → P b
  enqueue {a b : Adapter σ} {pool rest : Pool} {buffer : Buffer} {priority : Bool}
    {r : Except AdapterError Unit} : P a → a.enqueue pool buffer priority = (r, b, rest) → P b
  depart {a : Adapter σ} {buffer : Buffer} {queue : FrameQueue} : P a →
    a.queue.pop? = some (buffer, queue) → P (resumeSource { a with queue })
  resume {a : Adapter σ} : P a → P a.resumeSource

/-- A request that sets the source or the queue outright. -/
def Request.setsFeed : Request σ → Bool
  | .event (.bindSource _) | .event .unbindSource | .event (.setQueueDepth ..) | .event (.close _) =>
    true
  | _ => false

namespace FeedInvariant

variable {P : Adapter σ → Prop}

theorem hold {f : Frame} {priority : Bool} {reason : AdapterError}
    {r : Except AdapterError Delivery} (hP : FeedInvariant P) (h : P a)
    (hb : a.hold pool f priority reason = (r, b, rest)) : P b := by
  unfold Adapter.hold at hb
  split at hb
  · cases hb
    exact hP.of_feed h rfl
  · split at hb
    · cases hb
      exact hP.of_feed h rfl
    · cases hb
      exact hP.enqueue h rfl

theorem refill (hP : FeedInvariant P) (h : P a) (pool : Pool) : P (a.refill pool).1 := by
  unfold Adapter.refill
  split
  · exact h
  · split
    · rename_i hp
      exact hP.enqueue (hP.of_feed h (pull_feed hp)) rfl
    · rename_i hp
      exact hP.of_feed h (pull_feed hp)

theorem advance (hP : FeedInvariant P) (h : P a) (pool : Pool) : P (a.advance pool).1 := by
  unfold Adapter.advance
  split
  · rename_i buffer queue hp
    exact hP.refill (hP.depart h hp) _
  · exact hP.refill (hP.resume h) _

theorem transmit {f : Frame} {priority : Bool} {r : Except AdapterError Delivery}
    (hP : FeedInvariant P) (h : P a) (hb : a.transmit pool f priority now = .ok (r, b, rest)) :
    P b := by
  cases transmit_course hb with
  | nowhere => exact h
  | sent _ _ hs hc => exact hP.of_feed h ((scheduleNext_feed hc).trans (send_feed hs))
  | blocked hs hh => exact hP.hold (hP.of_feed h (send_feed hs)) hh
  | failed _ hs hc hh =>
    exact hP.hold (hP.of_feed h ((armRetry_feed hc).trans (send_feed hs))) hh
  | lost _ _ hs => exact hP.of_feed (hP.of_feed h (send_feed hs)) rfl
  | busy _ hh => exact hP.hold h hh

theorem service (hP : FeedInvariant P) (h : P a) (hb : a.service pool now = .ok (b, rest)) :
    P b := by
  cases service_course hb with
  | suspended => exact hP.of_feed h rfl
  | served _ _ hs hc =>
    exact hP.of_feed (hP.advance (hP.of_feed h (send_feed hs)) pool) (scheduleNext_feed hc)
  | retried _ _ hs hc => exact hP.of_feed h ((armRetry_feed hc).trans (send_feed hs))
  | blocked _ _ hs => exact hP.of_feed h (send_feed hs)
  | heldBack => exact h
  | nothing _ _ _ hp => exact hP.of_feed h (pull_feed hp)
  | carried _ _ _ hp hs hc =>
    exact hP.of_feed h ((scheduleNext_feed hc).trans ((send_feed hs).trans (pull_feed hp)))
  | kept _ _ _ hp hs he =>
    exact hP.enqueue (hP.of_feed h ((send_feed hs).trans (pull_feed hp))) he
  | deferred _ _ _ hp hs he hc =>
    have hkept := hP.enqueue (hP.of_feed h ((send_feed hs).trans (pull_feed hp))) he
    exact hP.of_feed hkept (armRetry_feed hc)
  | lost _ _ _ hp hs he =>
    exact hP.enqueue (hP.of_feed h ((send_feed hs).trans (pull_feed hp))) he

theorem onTimer {fired : Bool} (hP : FeedInvariant P) (h : P a)
    (hb : a.onTimer pool now = .ok (fired, b, rest)) : P b := by
  have hidle : P { a with timer := .idle } := hP.of_feed h rfl
  obtain rfl | ⟨-, rfl | hs⟩ := onTimer_course hb
  · exact h
  · exact hidle
  · exact hP.service hidle hs

theorem onOutputReady (hP : FeedInvariant P) (h : P a)
    (hb : a.onOutputReady pool now = .ok (b, rest)) : P b := by
  have hend : P a.endWait := hP.of_feed h rfl
  obtain rfl | rfl | ⟨-, hs⟩ := onOutputReady_course hb
  · exact h
  · exact hend
  · exact hP.service hend hs

theorem onSourceReady (hP : FeedInvariant P) (h : P a)
    (hb : a.onSourceReady pool now = .ok (b, rest)) : P b := by
  obtain rfl | ⟨-, hs⟩ := onSourceReady_course hb
  · exact h
  · exact hP.service h hs

theorem answer {r : Request σ} (hP : FeedInvariant P) (hr : r.setsFeed = false) (h : P a)
    (hb : a.answer r = .ok b) : P b := by
  cases r with
  | enqueue pool buffer priority =>
    cases hb
    exact hP.enqueue h rfl
  | elements change =>
    cases hb
    exact hP.of_feed h rfl
  | event e =>
    replace hb : a.next e = .ok b := hb
    cases e with
    | bindSource | unbindSource | setQueueDepth | close => cases hr
    | removeElement name =>
      cases hb
      obtain ⟨_, hc⟩ := removeElement_orSame a name
      exact hP.of_feed h (hc ▸ rfl)
    | setElementTx name on =>
      cases hb
      obtain ⟨_, hc⟩ := modifyElement_orSame a name _
      exact hP.of_feed h (hc ▸ rfl)
    | setElementRx name on =>
      cases hb
      obtain ⟨_, hc⟩ := modifyElement_orSame a name _
      exact hP.of_feed h (hc ▸ rfl)
    | setRateLimit rate now =>
      obtain ⟨t, rfl⟩ := setRateLimit_cases hb
      exact hP.of_feed h rfl
    | send f =>
      cases hb
      exact hP.of_feed h (send_feed rfl)
    | transmit pool f priority now =>
      obtain ⟨⟨_, _, _⟩, ht, rfl⟩ := ok_of_map hb
      exact hP.transmit h ht
    | onTimer pool now =>
      obtain ⟨⟨_, _, _⟩, ht, rfl⟩ := ok_of_map hb
      exact hP.onTimer h ht
    | onOutputReady pool now =>
      obtain ⟨⟨_, _⟩, ht, rfl⟩ := ok_of_map hb
      exact hP.onOutputReady h ht
    | onSourceReady pool now =>
      obtain ⟨⟨_, _⟩, ht, rfl⟩ := ok_of_map hb
      exact hP.onSourceReady h ht
    | producer change =>
      cases hb
      exact hP.of_feed h (by simp [feed])
    | _ =>
      cases hb
      exact hP.of_feed h rfl

end FeedInvariant

/-! ## Pace -/

omit [FrameSource σ] in
theorem send_blocked_pace {f : Frame} (h : a.send f = (.blocked, b)) :
    b.pace = (a.rate, .idle, true) := by
  rw [send_eq h]
  rfl

/-- A property of the pace that is kept as waits for room begin and end and the timer is set. -/
structure PaceInvariant (R : RateLimit × PacingTimer × Bool → Prop) : Prop where
  wait {r : RateLimit} {t : PacingTimer} {o : Bool} : R (r, t, o) → R (r, .idle, true)
  clear {r : RateLimit} {t : PacingTimer} {o : Bool} : R (r, t, o) → R (r, t, false)
  rest {r : RateLimit} {t : PacingTimer} {o : Bool} : R (r, t, o) → R (r, .idle, o)
  set {r : RateLimit} {t : PacingTimer} (u : PacingTimer) : R (r, t, false) → R (r, u, false)

def Request.setsRate : Request σ → Bool
  | .event (.setRateLimit ..) => true
  | _ => false

namespace PaceInvariant

variable {R : RateLimit × PacingTimer × Bool → Prop}

omit [FrameSource σ] in
theorem timed (hR : PaceInvariant R) (h : R a.pace) (ho : a.outputPending = false)
    (t : PacingTimer) : R (pace { a with timer := t }) := by
  have hp : R (a.rate, a.timer, false) := ho ▸ h
  have ht : R (a.rate, t, false) := hR.set t hp
  unfold pace
  rwa [ho]

omit [FrameSource σ] in
theorem send {f : Frame} {o : SendOutcome} (hR : PaceInvariant R) (h : R a.pace)
    (hs : a.send f = (o, b)) : R b.pace := by
  cases o with
  | accepted => exact send_pace hs SendOutcome.noConfusion ▸ h
  | blocked => exact send_blocked_pace hs ▸ hR.wait h
  | failed => exact send_pace hs SendOutcome.noConfusion ▸ h

omit [FrameSource σ] in
theorem scheduleNext (hR : PaceInvariant R) (h : R a.pace) (ho : a.outputPending = false)
    (hb : a.scheduleNext n now = .ok b) : R b.pace := by
  obtain ⟨t, rfl, -⟩ := scheduleNext_cases hb
  exact hR.timed h ho t

omit [FrameSource σ] in
theorem armRetry (hR : PaceInvariant R) (h : R a.pace) (ho : a.outputPending = false)
    (hb : a.armRetry n now = .ok b) : R b.pace := by
  obtain ⟨t, rfl, -⟩ := armRetry_cases hb
  exact hR.timed h ho t

theorem transmit {f : Frame} {priority : Bool} {r : Except AdapterError Delivery}
    (hR : PaceInvariant R) (h : R a.pace) (hb : a.transmit pool f priority now = .ok (r, b, rest)) :
    R b.pace := by
  cases transmit_course hb with
  | nowhere => exact h
  | sent hi _ hs hc =>
    have ho := (send_pending hs SendOutcome.noConfusion).trans (isIdle_pending hi).1
    exact hR.scheduleNext (hR.send h hs) ho hc
  | blocked hs hh => exact (hold_keeps hh).1 ▸ hR.send h hs
  | failed hi hs hc hh =>
    have ho := (send_pending hs SendOutcome.noConfusion).trans (isIdle_pending hi).1
    exact (hold_keeps hh).1 ▸ hR.armRetry (hR.send h hs) ho hc
  | lost _ _ hs =>
    have hsent := hR.send h hs
    exact hsent
  | busy _ hh => exact (hold_keeps hh).1 ▸ h

theorem service (hR : PaceInvariant R) (h : R a.pace) (ho : a.outputPending = false)
    (hb : a.service pool now = .ok (b, rest)) : R b.pace := by
  have hpulled : ∀ {c : Adapter σ} {left : Pool} {p : Option (Buffer × Bool)},
      a.pull pool = (p, c, left) → R c.pace ∧ c.outputPending = false := by
    intro c left p hp
    have hpace := (pull_keeps hp).1
    exact ⟨hpace ▸ h, (congrArg (·.2.2) hpace).trans ho⟩
  cases service_course hb with
  | suspended => exact hR.rest h
  | @served c d front _ _ hs hc =>
    have hpace : (c.advance pool).1.pace = c.pace := advance_pace c pool
    have hpending := (send_pending hs SendOutcome.noConfusion).trans ho
    refine hR.scheduleNext (hpace ▸ hR.send h hs) ?_ hc
    exact (congrArg (·.2.2) hpace).trans hpending
  | retried _ _ hs hc =>
    exact hR.armRetry (hR.send h hs) ((send_pending hs SendOutcome.noConfusion).trans ho) hc
  | blocked _ _ hs => exact hR.send h hs
  | heldBack => exact h
  | nothing _ _ _ hp => exact (hpulled hp).1
  | carried _ _ _ hp hs hc =>
    obtain ⟨hc', ho'⟩ := hpulled hp
    exact hR.scheduleNext (hR.send hc' hs) ((send_pending hs SendOutcome.noConfusion).trans ho') hc
  | kept _ _ _ hp hs he => exact (enqueue_keeps he).1 ▸ hR.send (hpulled hp).1 hs
  | deferred _ _ _ hp hs he hc =>
    obtain ⟨hc', ho'⟩ := hpulled hp
    have hpace := (enqueue_keeps he).1
    have hpending := (send_pending hs SendOutcome.noConfusion).trans ho'
    exact hR.armRetry (hpace ▸ hR.send hc' hs) ((congrArg (·.2.2) hpace).trans hpending) hc
  | lost _ _ _ hp hs he => exact (enqueue_keeps he).1 ▸ hR.send (hpulled hp).1 hs

theorem onTimer {fired : Bool} (hR : PaceInvariant R) (h : R a.pace)
    (hb : a.onTimer pool now = .ok (fired, b, rest)) : R b.pace := by
  unfold Adapter.onTimer PacingTimer.fire at hb
  split at hb
  · cases hb
    exact h
  · rename_i timer hf
    split at hf
    · cases hf
      have hidle : R (pace { a with timer := .idle }) := hR.rest h
      dsimp only at hb
      split at hb
      · cases hb
        exact hidle
      · rename_i ho
        obtain ⟨⟨c, left⟩, hs, hb⟩ := ok_of_bind hb
        cases hb
        exact hR.service hidle (by simpa using ho) hs
    · cases hf

theorem onOutputReady (hR : PaceInvariant R) (h : R a.pace)
    (hb : a.onOutputReady pool now = .ok (b, rest)) : R b.pace := by
  have hend : R a.endWait.pace := hR.clear h
  obtain rfl | rfl | ⟨-, hs⟩ := onOutputReady_course hb
  · exact h
  · exact hend
  · exact hR.service hend rfl hs

theorem onSourceReady (hR : PaceInvariant R) (h : R a.pace)
    (hb : a.onSourceReady pool now = .ok (b, rest)) : R b.pace := by
  obtain rfl | ⟨hi, hs⟩ := onSourceReady_course hb
  · exact h
  · exact hR.service h (isIdle_pending hi).1 hs

theorem answer {r : Request σ} (hR : PaceInvariant R) (hr : r.setsRate = false) (h : R a.pace)
    (hb : a.answer r = .ok b) : R b.pace := by
  cases r with
  | enqueue pool buffer priority =>
    cases hb
    have hpace : (a.enqueue pool buffer priority).2.1.pace = a.pace := (enqueue_keeps rfl).1
    exact hpace ▸ h
  | elements change =>
    cases hb
    exact h
  | event e =>
    replace hb : a.next e = .ok b := hb
    cases e with
    | setRateLimit => cases hr
    | removeElement name =>
      cases hb
      obtain ⟨_, hc⟩ := removeElement_orSame a name
      exact hc ▸ h
    | setElementTx name on =>
      cases hb
      obtain ⟨_, hc⟩ := modifyElement_orSame a name _
      exact hc ▸ h
    | setElementRx name on =>
      cases hb
      obtain ⟨_, hc⟩ := modifyElement_orSame a name _
      exact hc ▸ h
    | setQueueDepth pool depth =>
      cases hb
      have hpace : (a.setQueueDepth pool depth).1.pace = a.pace := resumeSource_pace _
      exact hpace ▸ h
    | send f =>
      cases hb
      exact hR.send h rfl
    | transmit pool f priority now =>
      obtain ⟨⟨_, _, _⟩, ht, rfl⟩ := ok_of_map hb
      exact hR.transmit h ht
    | onTimer pool now =>
      obtain ⟨⟨_, _, _⟩, ht, rfl⟩ := ok_of_map hb
      exact hR.onTimer h ht
    | onOutputReady pool now =>
      obtain ⟨⟨_, _⟩, ht, rfl⟩ := ok_of_map hb
      exact hR.onOutputReady h ht
    | onSourceReady pool now =>
      obtain ⟨⟨_, _⟩, ht, rfl⟩ := ok_of_map hb
      exact hR.onSourceReady h ht
    | close pool =>
      cases hb
      exact hR.clear (hR.rest h)
    | _ =>
      cases hb
      exact h

end PaceInvariant

end Adapter
end MulticastRelay
