import MulticastRelay.Proofs.Adapter.Keeping

/-! # Backpressure

A source is held back by a full queue alone, so that a frame waits whose departure lets the source go
on. It is asked for a frame only when one can be taken, and what it yields is sent or queued at once:
an adapter that checks both each time goes the same way as one that does not.
-/
namespace MulticastRelay

/-- An empty queue has a place. -/
theorem FrameQueue.isFull_of_empty {q : FrameQueue} (h : q.isEmpty = true)
    (hq : q.depth ≠ .bounded 0) (he : q.depth.isEnabled = true) : q.isFull = false := by
  obtain ⟨depth, priority, ordinary⟩ := q
  simp only [isEmpty, Bool.and_eq_true, List.isEmpty_iff] at h
  obtain ⟨rfl, rfl⟩ := h
  cases depth with
  | disabled => cases he
  | unbounded => rfl
  | bounded n =>
    have hn : n ≠ 0 := fun hz => hq (hz ▸ rfl)
    simpa [isFull, length] using hn

namespace Adapter

variable {σ : Type}

/-! ## Runs of an open adapter -/

/-- A request that neither closes the adapter nor leaves its queue without a place. -/
def Request.isOpen : Request σ → Bool
  | .event (.close _) => false
  | .event (.setQueueDepth _ depth) => depth != .bounded 0
  | _ => true

inductive Open [FrameSource σ] : Adapter σ → Prop where
  | new (owner : InterfaceId) (name : String) : Open (new owner name)
  | next {a b : Adapter σ} (r : Request σ) : Open a → r.isOpen = true → a.answer r = .ok b → Open b

variable {a b c : Adapter σ} {n : Nat} {now : Instant} {pool rest : Pool}

/-! ## A source that is held back -/

/-- The queue has a place, and only a source that is there is held back. -/
structure Placed (a : Adapter σ) : Prop where
  roomy : a.queue.depth ≠ .bounded 0
  sourced : a.sourceSuspended = true → a.source.isSome = true

/-- A source is held back by a full queue alone. -/
structure Restrained (a : Adapter σ) : Prop extends Placed a where
  full : a.sourceSuspended = true → a.queue.depth.isEnabled = true ∧ a.queue.isFull = true

theorem Restrained.of_feed (h : Restrained a) (hb : b.feed = a.feed) : Restrained b := by
  obtain ⟨hs, hh, hq⟩ : b.source.isSome = a.source.isSome ∧
      b.sourceSuspended = a.sourceSuspended ∧ b.queue = a.queue := by simpa [feed] using hb
  exact ⟨⟨hq ▸ h.roomy, fun hb => hs.trans (h.sourced (hh ▸ hb))⟩,
    fun hb => by rw [hq]; exact h.full (hh ▸ hb)⟩

/-- A source that is free asks nothing of the queue. -/
theorem Restrained.of_free (hq : a.queue.depth ≠ .bounded 0) (hs : a.sourceSuspended = false) :
    Restrained a :=
  ⟨⟨hq, fun h => absurd h (by simp [hs])⟩, fun h => absurd h (by simp [hs])⟩

theorem Restrained.bound (h : Restrained a) (hs : a.sourceSuspended = true) :
    ∃ n, a.queue.depth = .bounded n ∧ n ≤ a.queueLength ∧ 0 < a.queueLength := by
  obtain ⟨he, hf⟩ := h.full hs
  unfold FrameQueue.isFull at hf
  cases hd : a.queue.depth with
  | disabled => simp [hd, QueueDepth.isEnabled] at he
  | unbounded => simp [hd] at hf
  | bounded n =>
    have hn : n ≤ a.queue.length := by simpa [hd] using hf
    have hpos : n ≠ 0 := fun hz => h.roomy (hz ▸ hd)
    exact ⟨n, rfl, hn, Nat.lt_of_lt_of_le (Nat.pos_of_ne_zero hpos) hn⟩

section Restraint

variable [FrameSource σ]

theorem Placed.suspendSource (h : Placed a) (he : a.queue.depth.isEnabled = true)
    (hf : a.queue.isFull = true) : Restrained a.suspendSource := by
  unfold Adapter.suspendSource
  split
  · exact ⟨h, fun _ => ⟨he, hf⟩⟩
  · rename_i hs
    split
    · exact .of_free h.roomy (by simpa using hs)
    · exact ⟨⟨h.roomy, fun _ => rfl⟩, fun _ => ⟨he, hf⟩⟩

/-- Once resumed, a source is held back only if the queue is full as it is now. -/
theorem Placed.resumeSource (h : Placed a) : Restrained a.resumeSource := by
  unfold Adapter.resumeSource
  split
  · rename_i hc
    refine ⟨h, fun hs => ?_⟩
    simpa [hs] using hc
  · exact .of_free h.roomy rfl

theorem Restrained.enqueue {buffer : Buffer} {priority : Bool} {r : Except AdapterError Unit}
    (h : Restrained a) (hb : a.enqueue pool buffer priority = (r, b, rest)) : Restrained b := by
  unfold Adapter.enqueue at hb
  obtain ⟨-, hp⟩ | ⟨he, hf, hp⟩ | ⟨he, hf, queue, hp, hd⟩ := a.queue.push_cases buffer priority
  · rw [hp] at hb
    cases hb
    exact h.of_feed rfl
  · rw [hp] at hb
    cases hb
    exact Placed.suspendSource ⟨h.roomy, h.sourced⟩ he hf
  · rw [hp] at hb
    -- a source that was held back would have left no place
    have hs : a.sourceSuspended = false := by
      cases hs : a.sourceSuspended with
      | false => rfl
      | true => exact absurd (h.full hs).2 (by simp [hf])
    have hq : queue.depth ≠ .bounded 0 := hd ▸ h.roomy
    dsimp only at hb
    split at hb
    · rename_i hfull
      cases hb
      refine Placed.suspendSource ⟨hq, h.sourced⟩ ?_ hfull
      exact (congrArg _ hd).trans he
    · cases hb
      exact .of_free hq hs

theorem feedInvariant_restrained : FeedInvariant (@Restrained σ) where
  of_feed := Restrained.of_feed
  enqueue := Restrained.enqueue
  depart h hp :=
    Placed.resumeSource ⟨FrameQueue.pop_depth hp ▸ h.roomy, h.sourced⟩
  resume h := h.toPlaced.resumeSource

theorem Restrained.answer {r : Request σ} (h : Restrained a) (hr : r.isOpen = true)
    (hb : a.answer r = .ok b) : Restrained b := by
  cases hf : r.setsFeed with
  | false => exact feedInvariant_restrained.answer hf h hb
  | true =>
    unfold Request.setsFeed at hf
    split at hf
    · cases hb
      exact .of_free h.roomy rfl
    · cases hb
      exact .of_free h.roomy rfl
    · rename_i pool depth
      cases hb
      have hd : depth ≠ .bounded 0 := by simpa [Request.isOpen] using hr
      refine Placed.resumeSource ⟨?_, h.sourced⟩
      rw [← a.queue.setDepth_depth depth] at hd
      exact hd
    · cases hr
    · cases hf

theorem Open.answers {rs : List (Request σ)} (h : Open a) (hr : ∀ r ∈ rs, r.isOpen = true)
    (hb : rs.foldlM answer a = .ok b) : Open b := by
  induction rs generalizing a with
  | nil =>
    cases hb
    exact h
  | cons r rs ih =>
    rw [List.foldlM_cons] at hb
    obtain ⟨c, hc, hb⟩ := ok_of_bind hb
    exact ih (h.next r (hr r List.mem_cons_self) hc) (fun r hr' => hr r (List.mem_cons_of_mem _ hr')) hb

theorem Open.restrained (h : Open a) : Restrained a := by
  induction h with
  | new owner name => exact .of_free QueueDepth.noConfusion rfl
  | next r _ hr hb ih => exact ih.answer hr hb

end Restraint

/-! ## Checks on the source -/

/-- What ends a request of an adapter that checks its source. -/
inductive Breach where
  | clock (fault : ClockFault)
  /-- The source was asked for a frame that the queue has no place for, or while held back. -/
  | early
  /-- A frame of the source found no place in the queue. -/
  | lost
deriving DecidableEq, Repr

section Checked

variable [FrameSource σ]

/-- Pulls from the source; it must not be held back, nor the queue at its bound. -/
def checkedPull (a : Adapter σ) (pool : Pool) :
    Except Breach (Option (Buffer × Bool) × Adapter σ × Pool) :=
  if a.sourceSuspended || (a.queue.depth.isEnabled && a.queue.isFull) then .error .early
  else .ok (a.pull pool)

/-- Queues a buffer from the source; if there is a queue, it must have a place. -/
def checkedEnqueue (a : Adapter σ) (pool : Pool) (buffer : Buffer) (priority : Bool) :
    Except Breach (Except AdapterError Unit × Adapter σ × Pool) :=
  match a.enqueue pool buffer priority with
  | (.ok u, b, rest) => .ok (.ok u, b, rest)
  | (.error e, b, rest) => if a.queue.depth.isEnabled then .error .lost else .ok (.error e, b, rest)

def checkedRefill (a : Adapter σ) (pool : Pool) : Except Breach (Adapter σ × Pool) :=
  if a.sourceSuspended || !a.queue.depth.isEnabled || a.queue.isFull then .ok (a, pool)
  else do
    match ← a.checkedPull pool with
    | (some (buffer, priority), a, pool) => return (← a.checkedEnqueue pool buffer priority).2
    | (none, a, pool) => return (a, pool)

def checkedAdvance (a : Adapter σ) (pool : Pool) : Except Breach (Adapter σ × Pool) :=
  match a.queue.pop? with
  | some (buffer, queue) => { a with queue }.resumeSource.checkedRefill (pool.put buffer)
  | none => a.resumeSource.checkedRefill pool

def checkedServeQueue (a : Adapter σ) (pool : Pool) (front : Buffer) (now : Instant) :
    Except Breach (Adapter σ × Pool) :=
  match a.send front.octets with
  | (.accepted, a) => do
    let (a, pool) ← a.checkedAdvance pool
    return (← (a.scheduleNext front.length now).mapError .clock, pool)
  | (.failed, a) => do return (← (a.armRetry front.length now).mapError .clock, pool)
  | (.blocked, a) => .ok (a, pool)

def checkedServePulled (a : Adapter σ) (pool : Pool) (buffer : Buffer) (priority : Bool)
    (now : Instant) : Except Breach (Adapter σ × Pool) :=
  match a.send buffer.octets with
  | (.accepted, a) => do
    return (← (a.scheduleNext buffer.length now).mapError .clock, pool.put buffer)
  | (.blocked, a) => do return (← a.checkedEnqueue pool buffer priority).2
  | (.failed, a) => do
    match ← a.checkedEnqueue pool buffer priority with
    | (.ok _, a, pool) => return (← (a.armRetry buffer.length now).mapError .clock, pool)
    | (.error _, a, pool) => return (a, pool)

def checkedService (a : Adapter σ) (pool : Pool) (now : Instant) :
    Except Breach (Adapter σ × Pool) :=
  if a.rate.isSuspended then .ok ({ a with timer := .idle }, pool)
  else match a.queue.front? with
    | some front => a.checkedServeQueue pool front now
    | none =>
      if a.sourceSuspended then .ok (a, pool)
      else do
        match ← a.checkedPull pool with
        | (some (buffer, priority), a, pool) => a.checkedServePulled pool buffer priority now
        | (none, a, pool) => return (a, pool)

def checkedOnTimer (a : Adapter σ) (pool : Pool) (now : Instant) :
    Except Breach (Bool × Adapter σ × Pool) :=
  match a.timer.fire now with
  | (false, _) => .ok (false, a, pool)
  | (true, timer) =>
    let a := { a with timer }
    if a.outputPending then .ok (true, a, pool)
    else do return (true, ← a.checkedService pool now)

def checkedOnOutputReady (a : Adapter σ) (pool : Pool) (now : Instant) :
    Except Breach (Adapter σ × Pool) :=
  if !a.outputPending then .ok (a, pool)
  else
    let a := { a with outputPending := false }.mapElements Element.stopOutput
    if !a.rate.isSuspended && !a.timer.isArmed then a.checkedService pool now else .ok (a, pool)

def checkedOnSourceReady (a : Adapter σ) (pool : Pool) (now : Instant) :
    Except Breach (Adapter σ × Pool) :=
  if a.isIdle then a.checkedService pool now else .ok (a, pool)

/-- Answers a request with every frame of the source checked. -/
def checkedAnswer (a : Adapter σ) : Request σ → Except Breach (Adapter σ)
  | .event (.onTimer pool now) => (a.checkedOnTimer pool now).map (·.2.1)
  | .event (.onOutputReady pool now) => (a.checkedOnOutputReady pool now).map (·.1)
  | .event (.onSourceReady pool now) => (a.checkedOnSourceReady pool now).map (·.1)
  | r => (a.answer r).mapError .clock

/-! ## Checks that find nothing -/

theorem checkedPull_eq (hs : a.sourceSuspended = false)
    (hf : a.queue.depth.isEnabled = true → a.queue.isFull = false) :
    a.checkedPull pool = .ok (a.pull pool) := by
  unfold checkedPull
  rw [if_neg]
  rw [hs, Bool.false_or, Bool.and_eq_true]
  rintro ⟨he, hfull⟩
  rw [hf he] at hfull
  cases hfull

/-- With a place in the queue, or with no queue at all, the check passes. -/
theorem checkedEnqueue_eq (hf : a.queue.depth.isEnabled = true → a.queue.isFull = false)
    (buffer : Buffer) (priority : Bool) :
    a.checkedEnqueue pool buffer priority = .ok (a.enqueue pool buffer priority) := by
  unfold checkedEnqueue
  obtain ⟨b, -, -, ⟨he, -⟩ | ⟨e, he, -, r, hp⟩⟩ := enqueue_cases a pool buffer priority
  · rw [he]
  · have hd : a.queue.depth.isEnabled = false := by
      obtain ⟨hd, -⟩ | ⟨he, hfull, -⟩ | ⟨-, -, queue, hq, -⟩ := a.queue.push_cases buffer priority
      · exact hd
      · exact absurd hfull (by simp [hf he])
      · cases hp.symm.trans hq
    rw [he, hd]
    rfl

/-- A refill looks for itself before it pulls. -/
theorem checkedRefill_eq (a : Adapter σ) (pool : Pool) :
    a.checkedRefill pool = .ok (a.refill pool) := by
  unfold checkedRefill refill
  split
  · rfl
  · rename_i hc
    simp only [Bool.or_eq_true, Bool.not_eq_true', not_or, Bool.not_eq_true] at hc
    obtain ⟨⟨hs, -⟩, hf⟩ := hc
    rw [checkedPull_eq hs fun _ => hf]
    rcases hp : a.pull pool with ⟨_ | ⟨buffer, priority⟩, b, left⟩
    · rfl
    · have hq : b.queue = a.queue := (pull_keeps hp).2.1
      change (do return (← b.checkedEnqueue left buffer priority).2) = _
      rw [checkedEnqueue_eq fun _ => hq ▸ hf]
      rfl

theorem checkedAdvance_eq (a : Adapter σ) (pool : Pool) :
    a.checkedAdvance pool = .ok (a.advance pool) := by
  unfold checkedAdvance advance
  cases a.queue.pop? with
  | none => exact checkedRefill_eq a.resumeSource pool
  | some popped => exact checkedRefill_eq (resumeSource { a with queue := popped.2 }) _

theorem checkedServeQueue_eq (a : Adapter σ) (pool : Pool) (front : Buffer) (now : Instant) :
    a.checkedServeQueue pool front now = (a.serveQueue pool front now).mapError .clock := by
  unfold checkedServeQueue serveQueue
  rcases a.send front.octets with ⟨_ | _ | _, b⟩
  · dsimp only
    rw [checkedAdvance_eq]
    rcases b.advance pool with ⟨c, left⟩
    change (do return (← (c.scheduleNext front.length now).mapError Breach.clock, left)) = _
    dsimp only
    cases c.scheduleNext front.length now <;> rfl
  · rfl
  · dsimp only
    cases b.armRetry front.length now <;> rfl

/-- A frame of the source that does not go out finds a place, where there is a queue. -/
theorem checkedServePulled_eq (hf : a.queue.depth.isEnabled = true → a.queue.isFull = false)
    (pool : Pool) (buffer : Buffer) (priority : Bool) (now : Instant) :
    a.checkedServePulled pool buffer priority now =
      (a.servePulled pool buffer priority now).mapError .clock := by
  unfold checkedServePulled servePulled
  rcases hs : a.send buffer.octets with ⟨_ | _ | _, b⟩
  · dsimp only
    cases b.scheduleNext buffer.length now <;> rfl
  · have hq := send_queue hs
    dsimp only
    rw [checkedEnqueue_eq (hq ▸ hf)]
    rfl
  · have hq := send_queue hs
    dsimp only
    rw [checkedEnqueue_eq (hq ▸ hf)]
    rcases b.enqueue pool buffer priority with ⟨_ | _, c, left⟩
    · rfl
    · change (do return (← (c.armRetry buffer.length now).mapError Breach.clock, left)) = _
      dsimp only
      cases c.armRetry buffer.length now <;> rfl

/-- The source is pulled directly only with nothing queued, and then the queue has a place. -/
theorem checkedService_eq (hq : a.queue.depth ≠ .bounded 0) (pool : Pool) (now : Instant) :
    a.checkedService pool now = (a.service pool now).mapError .clock := by
  unfold checkedService service
  split
  · rfl
  · cases hf : a.queue.front? with
    | some front => exact checkedServeQueue_eq a pool front now
    | none =>
      dsimp only
      split
      · rfl
      · rename_i hs
        rw [Bool.not_eq_true] at hs
        have hroom := FrameQueue.isFull_of_empty (FrameQueue.isEmpty_of_front? hf) hq
        rw [checkedPull_eq hs hroom]
        rcases hp : a.pull pool with ⟨_ | ⟨buffer, priority⟩, b, left⟩
        · rfl
        · exact checkedServePulled_eq ((pull_keeps hp).2.1 ▸ hroom) left buffer priority now

theorem checkedOnTimer_eq (hq : a.queue.depth ≠ .bounded 0) (pool : Pool) (now : Instant) :
    a.checkedOnTimer pool now = (a.onTimer pool now).mapError .clock := by
  unfold checkedOnTimer onTimer
  rcases a.timer.fire now with ⟨_ | _, timer⟩
  · rfl
  · have hs := checkedService_eq (a := { a with timer }) hq pool now
    dsimp only
    rw [hs]
    split
    · rfl
    · cases service { a with timer } pool now <;> rfl

theorem checkedOnOutputReady_eq (hq : a.queue.depth ≠ .bounded 0) (pool : Pool) (now : Instant) :
    a.checkedOnOutputReady pool now = (a.onOutputReady pool now).mapError .clock := by
  have hs := checkedService_eq
    (a := { a with outputPending := false }.mapElements Element.stopOutput) hq pool now
  unfold checkedOnOutputReady onOutputReady
  dsimp only
  rw [hs]
  split
  · rfl
  · split <;> rfl

theorem checkedOnSourceReady_eq (hq : a.queue.depth ≠ .bounded 0) (pool : Pool) (now : Instant) :
    a.checkedOnSourceReady pool now = (a.onSourceReady pool now).mapError .clock := by
  unfold checkedOnSourceReady onSourceReady
  split
  · exact checkedService_eq hq pool now
  · rfl

theorem checkedAnswer_eq (hq : a.queue.depth ≠ .bounded 0) (r : Request σ) :
    a.checkedAnswer r = (a.answer r).mapError .clock := by
  cases r with
  | enqueue => rfl
  | elements => rfl
  | event e =>
    cases e with
    | onTimer pool now =>
      change (a.checkedOnTimer pool now).map (·.2.1) = ((a.onTimer pool now).map (·.2.1)).mapError _
      rw [checkedOnTimer_eq hq]
      cases a.onTimer pool now <;> rfl
    | onOutputReady pool now =>
      change (a.checkedOnOutputReady pool now).map (·.1) =
        ((a.onOutputReady pool now).map (·.1)).mapError _
      rw [checkedOnOutputReady_eq hq]
      cases a.onOutputReady pool now <;> rfl
    | onSourceReady pool now =>
      change (a.checkedOnSourceReady pool now).map (·.1) =
        ((a.onSourceReady pool now).map (·.1)).mapError _
      rw [checkedOnSourceReady_eq hq]
      cases a.onSourceReady pool now <;> rfl
    | _ => rfl

/-- In every run of an open adapter a source is held back only while it is there and the queue has
frames up to its bound, and no check on the source ever finds anything. -/
theorem source_restrained (h : Open a) :
    (a.sourceSuspended = true → a.hasSource = true ∧
      ∃ n, a.queue.depth = .bounded n ∧ n ≤ a.queueLength ∧ 0 < a.queueLength) ∧
    ∀ r, a.checkedAnswer r = (a.answer r).mapError .clock :=
  ⟨fun hs => ⟨h.restrained.sourced hs, h.restrained.bound hs⟩, checkedAnswer_eq h.restrained.roomy⟩

/-- A queue made shorter than it is holds its source through one departure; with the next the source
goes on, and its frame takes the place. -/
theorem shortened_queue_holds_source : ∃ (a b : Adapter DeviceSource) (n : Nat), Open a ∧
    a.sourceSuspended = true ∧ a.hasSource = true ∧ a.queue.depth = .bounded n ∧
    n ≤ a.queueLength ∧ 0 < a.queueLength ∧
    a.checkedAnswer (.event (.onTimer (.new 4 3) 0)) = .ok b ∧
    (b.queueLength, b.counters.framesQueued, b.counters.framesDropped) = (1, 3, 0) := by
  let pool : Pool := .new 4 3
  let feed : Device := { name := "vif0", inbound := [([7, 8, 9], .inbound)] }
  let run : List (Request DeviceSource) :=
    [.event (.addElement (.new { name := "eth1", script := [.block] })),
      .event (.setQueueDepth pool (.bounded 2)), .event (.bindSource (.new feed)),
      .event (.transmit pool [1] false 0), .event (.transmit pool [2] false 0),
      .event (.setQueueDepth pool (.bounded 1)), .event (.onOutputReady pool 0)]
  obtain ⟨a, ha, hs⟩ : ∃ a, run.foldlM answer (new ⟨1⟩ "wan0") = .ok a ∧ a.sourceSuspended = true :=
    ok_of_shown (by decide +kernel)
  obtain ⟨b, hb, hshown⟩ : ∃ b, a.answer (.event (.onTimer pool 0)) = .ok b ∧
      (b.queueLength, b.counters.framesQueued, b.counters.framesDropped) = (1, 3, 0) :=
    answer_of_shown ha (by decide +kernel)
  have hopen : Open a := (Open.new ⟨1⟩ "wan0").answers (by decide) ha
  obtain ⟨hheld, hchecks⟩ := source_restrained hopen
  obtain ⟨hsource, n, hn, hle, hpos⟩ := hheld hs
  exact ⟨a, b, n, hopen, hs, hsource, hn, hle, hpos, (hchecks _).trans (congrArg _ hb), hshown⟩

end Checked
end Adapter
end MulticastRelay
