import MulticastRelay.Proofs.Adapter.Runs

/-! # What the steps of an adapter touch

The helpers from which sending, queueing and waiting are built, each with what it leaves alone. When
an adapter is woken is decided by its rate, its timer and its wait for room, together its pace; the
queue is the other half of what a step may change.
-/
namespace MulticastRelay

section Outcomes

variable {ε α β : Type}

theorem ok_of_bind {x : Except ε α} {f : α → Except ε β} {b : β} (h : (x >>= f) = .ok b) :
    ∃ a, x = .ok a ∧ f a = .ok b := by
  cases x with
  | error e => cases h
  | ok a => exact ⟨a, rfl, h⟩

theorem ok_of_map {x : Except ε α} {f : α → β} {b : β} (h : x.map f = .ok b) :
    ∃ a, x = .ok a ∧ f a = b := by
  cases x with
  | error e => cases h
  | ok a => exact ⟨a, rfl, Except.ok.inj h⟩

/-- What a computation shows of its result says that there is one. -/
theorem ok_of_shown {x : Except ε α} {f : α → β} {v : β} (h : x.toOption.map f = some v) :
    ∃ a, x = .ok a ∧ f a = v := by
  cases x with
  | error e => cases h
  | ok a => exact ⟨a, rfl, Option.some.inj h⟩

end Outcomes

/-- A buffer pushed goes to the end of its lane. -/
theorem FrameQueue.push_lanes {q r : FrameQueue} {b : Buffer} {p : Bool} (h : q.push b p = .ok r) :
    r.priority = (if p then q.priority ++ [b] else q.priority) ∧
      r.ordinary = (if p then q.ordinary else q.ordinary ++ [b]) := by
  unfold push at h
  split at h
  · cases h
  · split at h
    · cases h
    · cases p <;> cases h <;> exact ⟨rfl, rfl⟩

theorem Pool.takeWith_octets {p q : Pool} {f : Frame} {b : Buffer}
    (h : p.takeWith? f = some (b, q)) :
    b.octets = f := by
  obtain ⟨x, -, hx⟩ := Option.map_eq_some_iff.1 h
  cases hx
  exact Buffer.octets_fill _ f

theorem FrameQueue.isEmpty_of_front? {q : FrameQueue} (h : q.front? = none) : q.isEmpty = true := by
  cases q with
  | mk depth priority ordinary => cases priority <;> cases ordinary <;> simp_all [front?, isEmpty]

theorem FrameQueue.front?_of_pop? {q : FrameQueue} (h : q.pop? = none) : q.front? = none := by
  cases q with
  | mk depth priority ordinary => cases priority <;> cases ordinary <;> simp_all [front?, pop?]

/-- At any time that has not run out the timer can be set to fire at once. -/
theorem PacingTimer.arm_now {now : Instant} (h : now < Instant.secondsBound * Duration.perSecond) :
    PacingTimer.arm now 0 = .ok { deadline := some now } := by
  unfold PacingTimer.arm Instant.after
  rw [Nat.add_zero, if_pos h]
  rfl

namespace Adapter

variable {σ : Type}

/-- What decides when an adapter is woken. -/
def pace (a : Adapter σ) : RateLimit × PacingTimer × Bool := (a.rate, a.timer, a.outputPending)

/-! ## Elements -/

/-- A request that names an element changes nothing but the elements. -/
theorem modifyElement_orSame (a : Adapter σ) (name : String) (f : Element → Element) :
    ∃ c, a.orSame (a.modifyElement name f) = { a with composite := c } := by
  unfold modifyElement
  split
  · exact ⟨_, rfl⟩
  · exact ⟨a.composite, rfl⟩

theorem removeElement_orSame (a : Adapter σ) (name : String) :
    ∃ c, a.orSame ((a.removeElement name).map (·.2)) = { a with composite := c } := by
  unfold removeElement
  split
  · exact ⟨_, rfl⟩
  · exact ⟨a.composite, rfl⟩

/-! ## Backpressure -/

section Backpressure

variable [FrameSource σ] (a : Adapter σ)

@[simp] theorem suspendSource_pace : a.suspendSource.pace = a.pace := by
  unfold suspendSource
  split
  · rfl
  · split <;> rfl

@[simp] theorem suspendSource_queue : a.suspendSource.queue = a.queue := by
  unfold suspendSource
  split
  · rfl
  · split <;> rfl

@[simp] theorem suspendSource_composite : a.suspendSource.composite = a.composite := by
  unfold suspendSource
  split
  · rfl
  · split <;> rfl

@[simp] theorem resumeSource_pace : a.resumeSource.pace = a.pace := by
  unfold resumeSource
  split <;> rfl

@[simp] theorem resumeSource_queue : a.resumeSource.queue = a.queue := by
  unfold resumeSource
  split <;> rfl

@[simp] theorem resumeSource_composite : a.resumeSource.composite = a.composite := by
  unfold resumeSource
  split <;> rfl

@[simp] theorem setQueueDepth_queue (pool : Pool) (depth : QueueDepth) :
    (a.setQueueDepth pool depth).1.queue = (a.queue.setDepth depth).2 := resumeSource_queue _

@[simp] theorem setQueueDepth_composite (pool : Pool) (depth : QueueDepth) :
    (a.setQueueDepth pool depth).1.composite = a.composite := resumeSource_composite _

end Backpressure

@[simp] theorem countDropped_pace (a : Adapter σ) (n : Nat) :
    (a.countDropped n).pace = a.pace := rfl

@[simp] theorem countDropped_queue (a : Adapter σ) (n : Nat) :
    (a.countDropped n).queue = a.queue := rfl

@[simp] theorem countDropped_composite (a : Adapter σ) (n : Nat) :
    (a.countDropped n).composite = a.composite := rfl

/-! ## Sending -/

section Sending

variable {a b : Adapter σ} {f : Frame} {o : SendOutcome}

theorem send_outcome (h : a.send f = (o, b)) : (a.composite.send f a.sourceOverride).1 = o :=
  congrArg Prod.fst h

theorem send_eq (h : a.send f = (o, b)) :
    b = ({ a with composite := (a.composite.send f a.sourceOverride).2 } : Adapter σ).noteOutcome o
      f.length := by
  have ho := send_outcome h
  subst ho
  exact (congrArg Prod.snd h).symm

theorem send_queue (h : a.send f = (o, b)) : b.queue = a.queue := by
  rw [send_eq h]
  cases o <;> rfl

/-- Only a full channel starts a wait. -/
theorem send_pace (h : a.send f = (o, b)) (ho : o ≠ .blocked) : b.pace = a.pace := by
  rw [send_eq h]
  cases o with
  | accepted => rfl
  | blocked => exact absurd rfl ho
  | failed => rfl

theorem send_waits (h : a.send f = (.blocked, b)) : b.outputPending = true ∧ b.timer = .idle := by
  rw [send_eq h]
  exact ⟨rfl, rfl⟩

end Sending

/-! ## Setting the timer -/

section Timing

variable {a b : Adapter σ} {n : Nat} {now : Instant}

theorem arm_isArmed {d : Duration} {t : PacingTimer} (h : PacingTimer.arm now d = .ok t) :
    t.isArmed = true := by
  obtain ⟨due, _, rfl⟩ := ok_of_map h
  rfl

/-- Setting the timer changes the timer, and a delay arms it. -/
theorem armAfter_cases {delay : Option Duration} (h : a.armAfter now delay = .ok b) :
    ∃ t : PacingTimer, b = { a with timer := t } ∧ t.isArmed = delay.isSome := by
  cases delay with
  | some d =>
    obtain ⟨t, ht, rfl⟩ := ok_of_map h
    exact ⟨t, rfl, arm_isArmed ht⟩
  | none => exact ⟨.idle, (Except.ok.inj h).symm, rfl⟩

theorem interval_isSome {limit : RateLimit} {delay : Option Duration}
    (h : limit.interval n = .ok delay) : delay.isSome = !limit.isSuspended := by
  cases limit with
  | unlimited => cases h; rfl
  | suspended => cases h; rfl
  | bytesPerSecond rate =>
    obtain ⟨d, _, rfl⟩ := ok_of_map h
    rfl

theorem retryDelay_isSome {limit : RateLimit} {delay : Option Duration}
    (h : limit.retryDelay n = .ok delay) : delay.isSome = !limit.isSuspended := by
  cases limit with
  | unlimited => cases h; rfl
  | suspended => exact interval_isSome (n := n) h
  | bytesPerSecond rate => exact interval_isSome (n := n) h

/-- A retry is always scheduled, except while suspended. -/
theorem armRetry_cases (h : a.armRetry n now = .ok b) :
    ∃ t : PacingTimer, b = { a with timer := t } ∧ t.isArmed = !a.rate.isSuspended := by
  obtain ⟨delay, hd, h⟩ := ok_of_bind h
  obtain ⟨t, rfl, ht⟩ := armAfter_cases h
  exact ⟨t, rfl, ht.trans (retryDelay_isSome hd)⟩

/-- The next frame is always scheduled, except while suspended and, without pacing, when nothing is
left to send. -/
theorem scheduleNext_cases (h : a.scheduleNext n now = .ok b) :
    ∃ t : PacingTimer, b = { a with timer := t } ∧
      (t.isArmed = true → a.rate.isSuspended = false) ∧
      (a.hasWork = true → a.rate.isSuspended = false → t.isArmed = true) := by
  unfold scheduleNext at h
  split at h
  · rename_i rate hr
    obtain ⟨delay, hd, h⟩ := ok_of_bind h
    obtain ⟨t, rfl, ht⟩ := armAfter_cases h
    have hs := ht.trans (interval_isSome hd)
    exact ⟨t, rfl, fun hu => by simpa [hu] using hs, fun _ hu => by simpa [hu] using hs⟩
  · rename_i hr
    obtain ⟨t, rfl, ht⟩ := armAfter_cases h
    exact ⟨t, rfl, fun _ => by rw [hr]; rfl, fun hw _ => by simpa [hw] using ht⟩
  · rename_i hr
    obtain ⟨t, rfl, ht⟩ := armAfter_cases h
    refine ⟨t, rfl, fun hu => ?_, fun _ hu => ?_⟩
    · rw [ht] at hu; cases hu
    · rw [hr] at hu; cases hu

/-- Changing the rate touches nothing but the rate and the timer. -/
theorem setRateLimit_cases {rate : Float} (h : a.setRateLimit rate now = .ok b) :
    ∃ t : PacingTimer, b = { a with rate := .ofBytesPerSecond rate, timer := t } := by
  unfold setRateLimit at h
  dsimp only at h
  split at h
  · cases h
    exact ⟨_, rfl⟩
  · split at h
    · split at h
      · obtain ⟨t, -, rfl⟩ := ok_of_map h
        exact ⟨t, rfl⟩
      · cases h
        exact ⟨_, rfl⟩
    · split at h
      · obtain ⟨t, -, rfl⟩ := ok_of_map h
        exact ⟨t, rfl⟩
      · cases h
        exact ⟨_, rfl⟩
  · split at h
    · obtain ⟨t, -, rfl⟩ := ok_of_map h
      exact ⟨t, rfl⟩
    · cases h
      exact ⟨_, rfl⟩

end Timing

/-! ## Queueing -/

section Queueing

variable [FrameSource σ]

/-- A buffer is queued, or it goes back to the pool and the queue stays. -/
theorem enqueue_cases (a : Adapter σ) (pool : Pool) (buffer : Buffer) (priority : Bool) :
    ∃ b : Adapter σ, b.pace = a.pace ∧ b.composite = a.composite ∧
      ((a.enqueue pool buffer priority = (.ok (), b, pool) ∧
          a.queue.push buffer priority = .ok b.queue) ∨
        ∃ e, a.enqueue pool buffer priority = (.error e, b, pool.put buffer) ∧
          b.queue = a.queue ∧ ∃ r, a.queue.push buffer priority = .error r) := by
  unfold enqueue
  cases hq : a.queue.push buffer priority with
  | ok q =>
    let c : Adapter σ := { a with queue := q, counters.framesQueued := a.counters.framesQueued + 1 }
    by_cases hf : c.queue.isFull = true
    · exact ⟨c.suspendSource, by rw [suspendSource_pace]; rfl, by rw [suspendSource_composite],
        .inl ⟨by simp [c, hf], by rw [suspendSource_queue]⟩⟩
    · exact ⟨c, rfl, rfl, .inl ⟨by simp [c, hf], rfl⟩⟩
  | error r =>
    cases r with
    | full => exact ⟨_, by simp, by simp, .inr ⟨_, rfl, by simp, _, rfl⟩⟩
    | disabled => exact ⟨_, by simp, by simp, .inr ⟨_, rfl, by simp, _, rfl⟩⟩

theorem enqueue_keeps {a b : Adapter σ} {pool rest : Pool} {buffer : Buffer} {priority : Bool}
    {r : Except AdapterError Unit} (h : a.enqueue pool buffer priority = (r, b, rest)) :
    b.pace = a.pace ∧ b.composite = a.composite := by
  obtain ⟨c, hp, hc, he⟩ := enqueue_cases a pool buffer priority
  rcases he with ⟨he, -⟩ | ⟨e, he, -⟩ <;> cases he.symm.trans h <;> exact ⟨hp, hc⟩

theorem hold_keeps {a b : Adapter σ} {pool rest : Pool} {f : Frame} {priority : Bool}
    {reason : AdapterError} {r : Except AdapterError Delivery}
    (h : a.hold pool f priority reason = (r, b, rest)) :
    b.pace = a.pace ∧ b.composite = a.composite := by
  unfold hold at h
  split at h
  · cases h
    exact ⟨rfl, rfl⟩
  · split at h
    · cases h
      exact ⟨rfl, rfl⟩
    · cases h
      exact enqueue_keeps rfl

theorem pull_keeps {a b : Adapter σ} {pool rest : Pool} {r : Option (Buffer × Bool)}
    (h : a.pull pool = (r, b, rest)) :
    b.pace = a.pace ∧ b.queue = a.queue ∧ b.composite = a.composite := by
  unfold pull at h
  split at h <;> cases h <;> exact ⟨rfl, rfl, rfl⟩

@[simp] theorem refill_pace (a : Adapter σ) (pool : Pool) : (a.refill pool).1.pace = a.pace := by
  unfold refill
  split
  · rfl
  · split
    · rename_i hp
      exact (enqueue_keeps rfl).1.trans (pull_keeps hp).1
    · rename_i hp
      exact (pull_keeps hp).1

@[simp] theorem refill_composite (a : Adapter σ) (pool : Pool) :
    (a.refill pool).1.composite = a.composite := by
  unfold refill
  split
  · rfl
  · split
    · rename_i hp
      exact (enqueue_keeps rfl).2.trans (pull_keeps hp).2.2
    · rename_i hp
      exact (pull_keeps hp).2.2

@[simp] theorem advance_pace (a : Adapter σ) (pool : Pool) : (a.advance pool).1.pace = a.pace := by
  unfold advance
  split
  · simp only [refill_pace, resumeSource_pace]
    rfl
  · simp only [refill_pace, resumeSource_pace]

@[simp] theorem advance_composite (a : Adapter σ) (pool : Pool) :
    (a.advance pool).1.composite = a.composite := by
  unfold advance
  split
  · simp only [refill_composite, resumeSource_composite]
  · simp only [refill_composite, resumeSource_composite]

end Queueing

/-! ## The course of a request -/

section Courses

variable [FrameSource σ]

/-- How handing a frame to an adapter can go. -/
inductive Transmits (a : Adapter σ) (pool : Pool) (f : Frame) (p : Bool) (now : Instant) :
    Except AdapterError Delivery → Adapter σ → Pool → Prop where
  | nowhere : Transmits a pool f p now (.error .noElements) a pool
  | sent {b c : Adapter σ} : a.isIdle = true → a.queue.isEmpty = true → a.send f = (.accepted, c) →
      c.scheduleNext f.length now = .ok b → Transmits a pool f p now (.ok .sent) b pool
  | blocked {b c : Adapter σ} {r : Except AdapterError Delivery} {rest : Pool} :
      a.send f = (.blocked, c) → c.hold pool f p .blocked = (r, b, rest) →
      Transmits a pool f p now r b rest
  | failed {b c d : Adapter σ} {r : Except AdapterError Delivery} {rest : Pool} : a.isIdle = true →
      a.send f = (.failed, c) → c.armRetry f.length now = .ok d →
      d.hold pool f p .sendFailed = (r, b, rest) → Transmits a pool f p now r b rest
  | lost {c : Adapter σ} : a.isIdle = true → a.queue.isEmpty = true → a.send f = (.failed, c) →
      Transmits a pool f p now (.error .sendFailed) (c.countDropped 1) pool
  | busy {b : Adapter σ} {r : Except AdapterError Delivery} {rest : Pool} :
      (a.isIdle && a.queue.isEmpty) = false →
      a.hold pool f p (if a.rate.isSuspended then .suspended else .blocked) = (r, b, rest) →
      Transmits a pool f p now r b rest

theorem transmit_course {a b : Adapter σ} {pool rest : Pool} {f : Frame} {p : Bool} {now : Instant}
    {r : Except AdapterError Delivery} (h : a.transmit pool f p now = .ok (r, b, rest)) :
    Transmits a pool f p now r b rest := by
  unfold transmit at h
  split at h
  · cases h
    exact .nowhere
  · split at h
    · rename_i hi
      obtain ⟨hi, hq⟩ := Bool.and_eq_true_iff.1 hi
      split at h
      · rename_i c hs
        obtain ⟨d, hd, h⟩ := ok_of_bind h
        cases h
        exact .sent hi hq hs hd
      · rename_i c hs
        exact .blocked hs (Except.ok.inj h)
      · rename_i c hs
        dsimp only at h
        split at h
        · obtain ⟨d, hd, h⟩ := ok_of_bind h
          exact .failed hi hs hd (Except.ok.inj h)
        · rename_i he
          rw [Bool.not_eq_true] at he
          have hl : c.hold pool f p .sendFailed = (.error .sendFailed, c.countDropped 1, pool) := by
            simp [hold, he]
          cases hl.symm.trans (Except.ok.inj h)
          exact .lost hi hq hs
    · rename_i hi
      exact .busy (by simpa using hi) (Except.ok.inj h)

/-- How the next frame of an adapter can leave, from the queue or else from the source. -/
inductive Services (a : Adapter σ) (pool : Pool) (now : Instant) : Adapter σ → Pool → Prop where
  | suspended : a.rate.isSuspended = true → Services a pool now { a with timer := .idle } pool
  | served {b c : Adapter σ} {front : Buffer} : a.rate.isSuspended = false →
      a.queue.front? = some front → a.send front.octets = (.accepted, b) →
      (b.advance pool).1.scheduleNext front.length now = .ok c →
      Services a pool now c (b.advance pool).2
  | retried {b c : Adapter σ} {front : Buffer} : a.rate.isSuspended = false →
      a.queue.front? = some front → a.send front.octets = (.failed, b) →
      b.armRetry front.length now = .ok c → Services a pool now c pool
  | blocked {b : Adapter σ} {front : Buffer} : a.rate.isSuspended = false →
      a.queue.front? = some front → a.send front.octets = (.blocked, b) → Services a pool now b pool
  | heldBack : a.rate.isSuspended = false → a.queue.front? = none → a.sourceSuspended = true →
      Services a pool now a pool
  | nothing {b : Adapter σ} {left : Pool} : a.rate.isSuspended = false → a.queue.front? = none →
      a.sourceSuspended = false → a.pull pool = (none, b, left) → Services a pool now b left
  | carried {b c d : Adapter σ} {buffer : Buffer} {p : Bool} {left : Pool} :
      a.rate.isSuspended = false → a.queue.front? = none → a.sourceSuspended = false →
      a.pull pool = (some (buffer, p), b, left) → b.send buffer.octets = (.accepted, c) →
      c.scheduleNext buffer.length now = .ok d → Services a pool now d (left.put buffer)
  | kept {b c d : Adapter σ} {buffer : Buffer} {p : Bool} {left rest : Pool}
      {r : Except AdapterError Unit} : a.rate.isSuspended = false → a.queue.front? = none →
      a.sourceSuspended = false → a.pull pool = (some (buffer, p), b, left) →
      b.send buffer.octets = (.blocked, c) → c.enqueue left buffer p = (r, d, rest) →
      Services a pool now d rest
  | deferred {b c d e : Adapter σ} {buffer : Buffer} {p : Bool} {left rest : Pool} :
      a.rate.isSuspended = false → a.queue.front? = none → a.sourceSuspended = false →
      a.pull pool = (some (buffer, p), b, left) → b.send buffer.octets = (.failed, c) →
      c.enqueue left buffer p = (.ok (), d, rest) → d.armRetry buffer.length now = .ok e →
      Services a pool now e rest
  | lost {b c d : Adapter σ} {buffer : Buffer} {p : Bool} {left rest : Pool} {e : AdapterError} :
      a.rate.isSuspended = false → a.queue.front? = none → a.sourceSuspended = false →
      a.pull pool = (some (buffer, p), b, left) → b.send buffer.octets = (.failed, c) →
      c.enqueue left buffer p = (.error e, d, rest) → Services a pool now d rest

theorem service_course {a b : Adapter σ} {pool rest : Pool} {now : Instant}
    (h : a.service pool now = .ok (b, rest)) : Services a pool now b rest := by
  unfold service at h
  split at h
  · rename_i hr
    cases h
    exact .suspended hr
  · rename_i hr
    rw [Bool.not_eq_true] at hr
    split at h
    · rename_i front hf
      unfold serveQueue at h
      split at h
      · rename_i c hs
        obtain ⟨d, hd, h⟩ := ok_of_bind h
        cases h
        exact .served hr hf hs hd
      · rename_i c hs
        obtain ⟨d, hd, h⟩ := ok_of_bind h
        cases h
        exact .retried hr hf hs hd
      · rename_i c hs
        cases h
        exact .blocked hr hf hs
    · rename_i hf
      split at h
      · rename_i hss
        cases h
        exact .heldBack hr hf hss
      · rename_i hss
        rw [Bool.not_eq_true] at hss
        split at h
        · rename_i buffer p c left hp
          unfold servePulled at h
          split at h
          · rename_i d hs
            obtain ⟨e, he, h⟩ := ok_of_bind h
            cases h
            exact .carried hr hf hss hp hs he
          · rename_i d hs
            exact .kept hr hf hss hp hs (Prod.ext rfl (Except.ok.inj h))
          · rename_i d hs
            split at h
            · rename_i e after he
              obtain ⟨g, hg, h⟩ := ok_of_bind h
              cases h
              exact .deferred hr hf hss hp hs he hg
            · rename_i e after he
              cases h
              exact .lost hr hf hss hp hs he
        · rename_i c left hp
          cases h
          exact .nothing hr hf hss hp

/-- How an adapter can answer its timer: only once it is due, and a wait for room goes on. -/
theorem onTimer_course {a b : Adapter σ} {pool rest : Pool} {now : Instant} {fired : Bool}
    (h : a.onTimer pool now = .ok (fired, b, rest)) :
    b = a ∨ a.timer.isDue now = true ∧
      (b = { a with timer := .idle } ∨ { a with timer := .idle }.service pool now = .ok (b, rest)) := by
  unfold onTimer PacingTimer.fire at h
  split at h
  · cases h
    exact .inl rfl
  · rename_i timer hf
    split at hf
    · rename_i hdue
      cases hf
      dsimp only at h
      split at h
      · cases h
        exact .inr ⟨hdue, .inl rfl⟩
      · obtain ⟨⟨c, left⟩, hs, h⟩ := ok_of_bind h
        cases h
        exact .inr ⟨hdue, .inr hs⟩
    · cases hf

/-- The adapter after its wait for room. -/
def endWait (a : Adapter σ) : Adapter σ :=
  { a with outputPending := false }.mapElements Element.stopOutput

/-- How an adapter can answer room in a channel: the wait ends, and goes over to a timer that runs. -/
theorem onOutputReady_course {a b : Adapter σ} {pool rest : Pool} {now : Instant}
    (h : a.onOutputReady pool now = .ok (b, rest)) :
    b = a ∨ b = a.endWait ∨ a.timer.isArmed = false ∧ a.endWait.service pool now = .ok (b, rest) := by
  unfold onOutputReady at h
  split at h
  · cases h
    exact .inl rfl
  · dsimp only at h
    split at h
    · rename_i hc
      obtain ⟨-, ht⟩ := Bool.and_eq_true_iff.1 hc
      have ht : (!a.timer.isArmed) = true := ht
      exact .inr (.inr ⟨by simpa using ht, h⟩)
    · cases h
      exact .inr (.inl rfl)

theorem onSourceReady_course {a b : Adapter σ} {pool rest : Pool} {now : Instant}
    (h : a.onSourceReady pool now = .ok (b, rest)) :
    b = a ∨ a.isIdle = true ∧ a.service pool now = .ok (b, rest) := by
  unfold onSourceReady at h
  split at h
  · rename_i hi
    exact .inr ⟨hi, h⟩
  · cases h
    exact .inl rfl

end Courses

end Adapter
end MulticastRelay
