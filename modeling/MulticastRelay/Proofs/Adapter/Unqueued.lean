import MulticastRelay.Proofs.Adapter.Histories
import MulticastRelay.Proofs.Adapter.Keeping
import MulticastRelay.Proofs.Adapter.Pacing
import MulticastRelay.Proofs.Channel.Rounds

/-! # Adapters without a queue

An adapter with neither a rate nor a queue has no reason to hold a frame, and what it does not send at
once is lost. Whether it sends a frame that an open channel would take hangs on its timer alone. The
timer is set for the source after a frame has gone out, and when the rate is lifted; until it fires,
frames are dropped.
-/
namespace MulticastRelay

theorem Mirror.exists_takesAt_iff {es : List Element} {f : Frame} {source : Option LinkAddress} :
    (∃ i, takesAt es f source i = true) ↔ ∃ e ∈ es, e.takes f source = true := by
  constructor
  · rintro ⟨i, hi⟩
    obtain ⟨e, he, ht⟩ := (Option.any_eq_true _ _).1 hi
    exact ⟨e, List.mem_of_getElem? he, ht⟩
  · rintro ⟨e, he, ht⟩
    obtain ⟨i, hi⟩ := List.mem_iff_getElem?.1 he
    exact ⟨i, by simp [takesAt, hi, ht]⟩

/-- A send succeeds exactly if some element takes the frame, whatever the policy. -/
theorem Composite.send_accepted_iff_takes {c : Composite} {f : Frame}
    {source : Option LinkAddress} :
    (c.send f source).1 = .accepted ↔ ∃ e ∈ c.elements, e.takes f source = true := by
  unfold send
  match c.elements with
  | [] => simp
  | [e] => by_cases ht : e.txEnabled = true <;> simp [ht, Element.takes]
  | e₁ :: e₂ :: es =>
    rw [← Mirror.exists_takesAt_iff]
    cases c.policy with
    | mirror => exact Mirror.send_accepted_iff _
    | roundRobin => exact RoundRobin.send_accepted_iff _ _

theorem FrameQueue.pop?_of_isEmpty {q : FrameQueue} (h : q.isEmpty = true) : q.pop? = none := by
  obtain ⟨depth, priority, ordinary⟩ := q
  simp only [isEmpty, Bool.and_eq_true, List.isEmpty_iff] at h
  obtain ⟨rfl, rfl⟩ := h
  rfl

theorem RateLimit.eq_unlimited {r : RateLimit} (hp : r.isPaced = false)
    (hs : r.isSuspended = false) : r = .unlimited := by
  cases r with
  | unlimited => rfl
  | suspended => cases hs
  | bytesPerSecond => cases hp

namespace Adapter

variable {σ : Type} {a b : Adapter σ} {f : Frame} {now : Instant}

/-- Neither a rate nor a queue makes a frame wait. -/
def Direct (a : Adapter σ) : Prop := a.rate = .unlimited ∧ a.queue.depth = .disabled

/-- Where no frame need wait, none does. -/
def Prompt (a : Adapter σ) : Prop :=
  Direct a → a.outputPending = false → a.timer.isArmed = false

/-- A frame went out for an adapter that has a source. -/
def Sends (a b : Adapter σ) : Prop :=
  a.hasSource = true ∧ a.counters.framesSent < b.counters.framesSent

/-- A request that sets the timer of an adapter in which no frame need wait. -/
def Request.Stirs (a : Adapter σ) (r : Request σ) (b : Adapter σ) : Prop :=
  match r with
  | .event (.setRateLimit rate _) =>
    RateLimit.ofBytesPerSecond rate = .unlimited ∧ a.queue.depth = .disabled ∧
      (a.timer.isArmed = true ∨ a.rate.isSuspended = true ∧ a.outputPending = false)
  | .event (.setQueueDepth _ depth) =>
    a.rate = .unlimited ∧ depth = .disabled ∧ a.timer.isArmed = true
  | .event (.transmit ..) | .event (.onOutputReady ..) | .event (.onSourceReady ..) =>
    Direct a ∧ Sends a b
  | _ => False

/-! ## What every request keeps -/

/-- Without a queue nothing is queued, and the source is not held back. -/
def Unqueued (a : Adapter σ) : Prop :=
  a.queue.depth = .disabled → a.queue.isEmpty = true ∧ a.sourceSuspended = false

theorem Unqueued.of_feed (h : Unqueued a) (hb : b.feed = a.feed) : Unqueued b := by
  obtain ⟨-, hh, hq⟩ : b.source.isSome = a.source.isSome ∧
      b.sourceSuspended = a.sourceSuspended ∧ b.queue = a.queue := by simpa [feed] using hb
  unfold Unqueued
  rw [hh, hq]
  exact h

theorem Direct.of_feed (h : Direct a) (hr : b.rate = a.rate) (hb : b.feed = a.feed) : Direct b :=
  ⟨hr.trans h.1, (congrArg (·.2.2.depth) hb).trans h.2⟩

/-- What every request keeps; the timer rests while room is awaited. -/
structure Tidy (a : Adapter σ) : Prop where
  unqueued : Unqueued a
  rests : a.outputPending = true → a.timer.isArmed = false

theorem paceInvariant_rests :
    PaceInvariant fun p => p.2.2 = true → p.2.1.isArmed = false where
  wait _ _ := rfl
  clear _ h := by cases h
  rest _ _ := rfl
  set _ _ h := by cases h

theorem paceInvariant_rate (r : RateLimit) : PaceInvariant fun p => p.1 = r where
  wait := id
  clear := id
  rest := id
  set _ := id

variable [FrameSource σ] {owner : InterfaceId} {name : String} {pool rest : Pool} {r : Request σ}

theorem feedInvariant_depth (depth : QueueDepth) :
    FeedInvariant fun a : Adapter σ => a.queue.depth = depth where
  of_feed h hb := (congrArg (·.2.2.depth) hb).trans h
  enqueue {a b pool rest buffer priority r} h hb := by
    obtain ⟨c, -, -, ⟨he, hq⟩ | ⟨e, he, hq, -⟩⟩ := enqueue_cases a pool buffer priority
    · cases he.symm.trans hb
      obtain ⟨-, hp⟩ | ⟨-, -, hp⟩ | ⟨-, -, queue, hp, hd⟩ := a.queue.push_cases buffer priority
      · cases hp.symm.trans hq
      · cases hp.symm.trans hq
      · cases hp.symm.trans hq
        exact hd.trans h
    · cases he.symm.trans hb
      exact (congrArg _ hq).trans h
  depart h hp := (congrArg _ (resumeSource_queue _)).trans ((FrameQueue.pop_depth hp).trans h)
  resume h := (congrArg _ (resumeSource_queue _)).trans h

theorem enqueue_unqueued (hd : a.queue.depth = .disabled) (pool : Pool) (buffer : Buffer)
    (priority : Bool) :
    a.enqueue pool buffer priority = (.error .queueDisabled, a.countDropped 1, pool.put buffer) := by
  unfold enqueue FrameQueue.push
  rw [hd]
  rfl

theorem feedInvariant_unqueued : FeedInvariant (@Unqueued σ) where
  of_feed := Unqueued.of_feed
  enqueue {a b pool rest buffer priority r} h hb hd := by
    have hda : a.queue.depth = .disabled :=
      ((feedInvariant_depth a.queue.depth).enqueue rfl hb).symm.trans hd
    rw [enqueue_unqueued hda] at hb
    cases hb
    exact h hda
  depart {a buffer queue} h hp hd := by
    have hda : a.queue.depth = .disabled :=
      ((feedInvariant_depth a.queue.depth).depart rfl hp).symm.trans hd
    exact absurd (FrameQueue.pop?_of_isEmpty (h hda).1) (by simp [hp])
  resume {a} h hd := by
    have hda : a.queue.depth = .disabled :=
      ((feedInvariant_depth a.queue.depth).resume rfl).symm.trans hd
    have hsame : a.resumeSource = a := by simp [resumeSource, (h hda).2]
    rw [hsame]
    exact h hda

/-- A queue that is taken away loses its frames, and a source that it held back goes on. -/
theorem setQueueDepth_unqueued (a : Adapter σ) (pool : Pool) (depth : QueueDepth) :
    Unqueued (a.setQueueDepth pool depth).1 := by
  intro hd
  rw [setQueueDepth_queue, FrameQueue.setDepth_depth] at hd
  subst hd
  constructor
  · rw [setQueueDepth_queue]
    rfl
  · unfold setQueueDepth resumeSource
    dsimp only
    split
    · rename_i hc
      simpa [FrameQueue.setDepth, QueueDepth.isEnabled, FrameQueue.clear] using hc
    · rfl

theorem Tidy.answer {r : Request σ} (h : Tidy a) (hb : a.answer r = .ok b) : Tidy b := by
  constructor
  · cases hf : r.setsFeed with
    | false => exact feedInvariant_unqueued.answer hf h.unqueued hb
    | true =>
      unfold Request.setsFeed at hf
      split at hf
      · cases hb
        exact fun hd => ⟨(h.unqueued hd).1, rfl⟩
      · cases hb
        exact fun hd => ⟨(h.unqueued hd).1, rfl⟩
      · cases hb
        exact setQueueDepth_unqueued a _ _
      · cases hb
        exact fun hd => ⟨rfl, (h.unqueued hd).2⟩
      · cases hf
  · cases hs : r.setsRate with
    | false => exact paceInvariant_rests.answer hs h.rests hb
    | true =>
      unfold Request.setsRate at hs
      split at hs
      · intro ho
        have hpending : a.outputPending = true := by
          obtain ⟨t, rfl⟩ := setRateLimit_cases hb
          exact ho
        rw [setRateLimit_isArmed hb, h.rests hpending, hpending]
        split <;> simp
      · cases hs

/-! ## What sets the timer -/

omit [FrameSource σ] in
theorem Tidy.prompt_iff (h : Tidy a) : Prompt a ↔ (Direct a → a.timer.isArmed = false) := by
  constructor
  · intro hp hd
    cases ho : a.outputPending with
    | true => exact h.rests ho
    | false => exact hp hd ho
  · exact fun hi hd _ => hi hd

omit [FrameSource σ] in
theorem Prompt.of_pace (h : Prompt a) (hp : b.pace = a.pace)
    (hd : b.queue.depth = a.queue.depth) : Prompt b := by
  obtain ⟨hr, ht, ho⟩ :
      b.rate = a.rate ∧ b.timer = a.timer ∧ b.outputPending = a.outputPending := by
    simpa [pace] using hp
  unfold Prompt Direct
  rw [hr, ht, ho, hd]
  exact h

omit [FrameSource σ] in
/-- After a send the timer is set exactly if there is a source. -/
theorem scheduleNext_direct {n : Nat} (hd : Direct a) (hu : Unqueued a)
    (hb : a.scheduleNext n now = .ok b) : b.timer.isArmed = a.hasSource := by
  obtain ⟨hq, hs⟩ := hu hd.2
  have hwork : a.hasWork = a.hasSource := by simp [hasWork, hasSource, hq, hs]
  unfold scheduleNext at hb
  rw [hd.1, hwork] at hb
  obtain ⟨t, rfl, ht⟩ := armAfter_cases hb
  rw [ht]
  cases a.hasSource <;> rfl

theorem hold_unqueued (hd : a.queue.depth = .disabled) (pool : Pool) (f : Frame)
    (priority : Bool) (reason : AdapterError) :
    a.hold pool f priority reason = (.error reason, a.countDropped 1, pool) := by
  unfold hold
  rw [hd]
  rfl

/-- Without a queue a frame is sent at once or dropped. -/
theorem transmit_unqueued (hd : a.queue.depth = .disabled) (hu : Unqueued a) (pool : Pool)
    (f : Frame) (priority : Bool) (now : Instant) :
    a.transmit pool f priority now =
      if a.elements.isEmpty then .ok (.error .noElements, a, pool)
      else if a.isIdle then
        match a.send f with
        | (.accepted, c) => do return (.ok .sent, ← c.scheduleNext f.length now, pool)
        | (.blocked, c) => .ok (.error .blocked, c.countDropped 1, pool)
        | (.failed, c) => .ok (.error .sendFailed, c.countDropped 1, pool)
      else .ok (.error (if a.rate.isSuspended then .suspended else .blocked),
        a.countDropped 1, pool) := by
  unfold transmit
  rw [(hu hd).1, Bool.and_true, hold_unqueued hd]
  split
  · rfl
  · split
    · rcases hs : a.send f with ⟨_ | _ | _, c⟩
      · rfl
      · have hc : c.queue.depth = .disabled := (congrArg _ (send_queue hs)).trans hd
        exact congrArg Except.ok (hold_unqueued hc ..)
      · have hc : c.queue.depth = .disabled := (congrArg _ (send_queue hs)).trans hd
        dsimp only
        rw [hc]
        exact congrArg Except.ok (hold_unqueued hc ..)
    · rfl

omit [FrameSource σ] in
theorem stirred_of_still (ht : b.timer.isArmed = false) (hn : b.outlet = a.outlet) :
    b.timer.isArmed = true ↔ Sends a b := by
  have hf : b.counters.framesSent = a.counters.framesSent := congrArg (·.2.1) hn
  refine iff_of_false (by simp [ht]) fun hs => ?_
  exact absurd hs.2 (by omega)

omit [FrameSource σ] in
theorem stirred_of_sent {c d : Adapter σ} {n : Nat} (hd : Direct c) (hu : Unqueued c)
    (hsource : c.hasSource = a.hasSource) (hn : c.outlet = a.outlet)
    (hs : c.send f = (.accepted, d)) (hb : d.scheduleNext n now = .ok b) :
    b.timer.isArmed = true ↔ Sends a b := by
  have hfeed : d.feed = c.feed := send_feed hs
  have hrate : d.rate = c.rate := congrArg (·.1) (send_pace hs SendOutcome.noConfusion)
  have hdsource : d.hasSource = a.hasSource := (congrArg (·.1) hfeed).trans hsource
  have hcount : b.counters.framesSent = a.counters.framesSent + 1 := by
    have hc : c.counters.framesSent = a.counters.framesSent := congrArg (·.2.1) hn
    obtain ⟨t, rfl, -⟩ := scheduleNext_cases hb
    rw [send_eq hs, ← hc]
    rfl
  rw [scheduleNext_direct (hd.of_feed hrate hfeed) (hu.of_feed hfeed) hb, hdsource]
  unfold Sends
  rw [hcount]
  simp

theorem transmit_stirred {r : Except AdapterError Delivery} {priority : Bool} (hd : Direct a)
    (hu : Unqueued a) (hi : a.timer.isArmed = false)
    (hb : a.transmit pool f priority now = .ok (r, b, rest)) :
    b.timer.isArmed = true ↔ Sends a b := by
  rw [transmit_unqueued hd.2 hu] at hb
  split at hb
  · cases hb
    exact stirred_of_still hi rfl
  · split at hb
    · split at hb
      · rename_i c hs
        obtain ⟨d, hd', hb⟩ := ok_of_bind hb
        cases hb
        exact stirred_of_sent hd hu rfl rfl hs hd'
      · rename_i c hs
        cases hb
        have ht : c.timer.isArmed = false := by rw [(send_waits hs).2]; rfl
        have hn : c.outlet = a.outlet := send_outlet hs SendOutcome.noConfusion
        exact stirred_of_still ht hn
      · rename_i c hs
        cases hb
        have ht : c.timer = a.timer := congrArg (·.2.1) (send_pace hs SendOutcome.noConfusion)
        have hn : c.outlet = a.outlet := send_outlet hs SendOutcome.noConfusion
        exact stirred_of_still (ht ▸ hi) hn
    · cases hb
      exact stirred_of_still hi rfl

theorem service_stirred (hd : Direct a) (hu : Unqueued a) (hi : a.timer.isArmed = false)
    (hb : a.service pool now = .ok (b, rest)) : b.timer.isArmed = true ↔ Sends a b := by
  have hempty : a.queue.front? = none :=
    FrameQueue.front?_of_pop? (FrameQueue.pop?_of_isEmpty (hu hd.2).1)
  cases service_course hb with
  | suspended hr =>
    rw [hd.1] at hr
    cases hr
  | served _ hf => exact absurd hf (by simp [hempty])
  | retried _ hf => exact absurd hf (by simp [hempty])
  | blocked _ hf => exact absurd hf (by simp [hempty])
  | heldBack => exact stirred_of_still hi rfl
  | nothing _ _ _ hp =>
    have ht : b.timer = a.timer := congrArg (·.2.1) (pull_keeps hp).1
    exact stirred_of_still (ht ▸ hi) (pull_outlet hp)
  | @carried c _ _ _ _ _ _ _ _ hp hs hc =>
    have hfeed : c.feed = a.feed := pull_feed hp
    have hrate : c.rate = a.rate := congrArg (·.1) (pull_keeps hp).1
    exact stirred_of_sent (hd.of_feed hrate hfeed) (hu.of_feed hfeed) (congrArg (·.1) hfeed)
      (pull_outlet hp) hs hc
  | @kept _ d _ _ _ _ _ _ _ _ _ hp hs he =>
    have ht : b.timer = d.timer := congrArg (·.2.1) (enqueue_keeps he).1
    have hsent := send_outlet hs SendOutcome.noConfusion
    have hn := (enqueue_outlet he).trans (hsent.trans (pull_outlet hp))
    refine stirred_of_still ?_ hn
    rw [ht, (send_waits hs).2]
    rfl
  | deferred _ _ _ hp hs he =>
    have hdepth := (congrArg (·.2.2.depth) ((send_feed hs).trans (pull_feed hp))).trans hd.2
    rw [enqueue_unqueued hdepth] at he
    cases he
  | @lost c d _ _ _ _ _ _ _ _ _ hp hs he =>
    have hout := send_outlet hs SendOutcome.noConfusion
    have hn := (enqueue_outlet he).trans (hout.trans (pull_outlet hp))
    have hsent := send_pace hs SendOutcome.noConfusion
    have hpace := (enqueue_keeps he).1.trans (hsent.trans (pull_keeps hp).1)
    have ht : b.timer = a.timer := congrArg (·.2.1) hpace
    exact stirred_of_still (ht ▸ hi) hn

theorem onOutputReady_stirred (hd : Direct a) (hu : Unqueued a) (hi : a.timer.isArmed = false)
    (hb : a.onOutputReady pool now = .ok (b, rest)) : b.timer.isArmed = true ↔ Sends a b := by
  have hend : Direct a.endWait := hd
  obtain rfl | rfl | ⟨-, hs⟩ := onOutputReady_course hb
  · exact stirred_of_still hi rfl
  · exact stirred_of_still hi rfl
  · have hstirred := service_stirred hend hu hi hs
    exact hstirred

theorem onSourceReady_stirred (hd : Direct a) (hu : Unqueued a) (hi : a.timer.isArmed = false)
    (hb : a.onSourceReady pool now = .ok (b, rest)) : b.timer.isArmed = true ↔ Sends a b := by
  obtain rfl | ⟨-, hs⟩ := onSourceReady_course hb
  · exact stirred_of_still hi rfl
  · exact service_stirred hd hu hi hs

/-- A request that sends frames sets the timer exactly if one went out beside a source. -/
theorem Tidy.prompt_iff_of_stirred (h : Tidy a) (hp : Prompt a) (hf : r.setsFeed = false)
    (hs : r.setsRate = false) (hb : a.answer r = .ok b)
    (hstirred : Direct a → a.timer.isArmed = false → (b.timer.isArmed = true ↔ Sends a b)) :
    Prompt b ↔ ¬(Direct a ∧ Sends a b) := by
  have hrate : b.rate = a.rate := (paceInvariant_rate a.rate).answer hs rfl hb
  have hdepth : b.queue.depth = a.queue.depth :=
    (feedInvariant_depth a.queue.depth).answer hf rfl hb
  have hdirect : Direct b ↔ Direct a := by rw [Direct, Direct, hrate, hdepth]
  rw [(h.answer hb).prompt_iff, hdirect, not_and]
  refine forall_congr' fun hd => ?_
  rw [← hstirred hd (h.prompt_iff.1 hp hd), Bool.not_eq_true]

theorem Tidy.setRateLimit_prompt_iff {rate : Float} (h : Tidy a)
    (hb : a.answer (.event (.setRateLimit rate now)) = .ok b) :
    Prompt b ↔ ¬(Request.event (.setRateLimit rate now)).Stirs a b := by
  have hset : a.setRateLimit rate now = .ok b := hb
  have hdirect : Direct b ↔
      RateLimit.ofBytesPerSecond rate = .unlimited ∧ a.queue.depth = .disabled := by
    obtain ⟨t, rfl⟩ := setRateLimit_cases hset
    exact Iff.rfl
  have harmed : RateLimit.ofBytesPerSecond rate = .unlimited → (b.timer.isArmed = true ↔
      a.timer.isArmed = true ∨ a.rate.isSuspended = true ∧ a.outputPending = false) := by
    intro hr
    rw [setRateLimit_isArmed hset, hr]
    simp
  rw [(h.answer hb).prompt_iff, hdirect]
  constructor
  · rintro hi ⟨hr, hd, hsets⟩
    have ht : b.timer.isArmed = true := (harmed hr).2 hsets
    rw [hi ⟨hr, hd⟩] at ht
    cases ht
  · rintro hno ⟨hr, hd⟩
    rw [← Bool.not_eq_true, harmed hr]
    exact fun hsets => hno ⟨hr, hd, hsets⟩

theorem Tidy.setQueueDepth_prompt_iff {depth : QueueDepth} (h : Tidy a)
    (hb : a.answer (.event (.setQueueDepth pool depth)) = .ok b) :
    Prompt b ↔ ¬(Request.event (.setQueueDepth pool depth)).Stirs a b := by
  rw [(h.answer hb).prompt_iff]
  cases hb
  have hpace : (a.setQueueDepth pool depth).1.pace = a.pace := resumeSource_pace _
  have hrate : (a.setQueueDepth pool depth).1.rate = a.rate := congrArg (·.1) hpace
  have htimer : (a.setQueueDepth pool depth).1.timer = a.timer := congrArg (·.2.1) hpace
  unfold Direct
  rw [hrate, htimer, setQueueDepth_queue, FrameQueue.setDepth_depth]
  constructor
  · rintro hi ⟨hr, hd, ht⟩
    rw [hi ⟨hr, hd⟩] at ht
    cases ht
  · rintro hno ⟨hr, hd⟩
    rw [← Bool.not_eq_true]
    exact fun ht => hno ⟨hr, hd, ht⟩

/-- The timer does not fire in an adapter in which no frame need wait. -/
theorem Tidy.onTimer_prompt {fired : Bool} (h : Tidy a) (hp : Prompt a)
    (hb : a.onTimer pool now = .ok (fired, b, rest)) : Prompt b := by
  obtain rfl | ⟨hdue, -⟩ := onTimer_course hb
  · exact hp
  · have ht : a.timer.isArmed = true := by
      unfold PacingTimer.isDue at hdue
      unfold PacingTimer.isArmed
      cases hd : a.timer.deadline with
      | none => simp [hd] at hdue
      | some due => rfl
    have hndirect : ¬Direct a := fun hd => by
      rw [h.prompt_iff.1 hp hd] at ht
      cases ht
    have hrate : b.rate = a.rate := (paceInvariant_rate a.rate).onTimer rfl hb
    have hdepth : b.queue.depth = a.queue.depth :=
      (feedInvariant_depth a.queue.depth).onTimer rfl hb
    exact fun hd => absurd ⟨hrate ▸ hd.1, hdepth ▸ hd.2⟩ hndirect

omit [FrameSource σ] in
theorem Prompt.send (hp : Prompt a) (f : Frame) : Prompt (a.send f).2 := by
  rcases hs : a.send f with ⟨_ | _ | _, c⟩
  · exact hp.of_pace (send_pace hs SendOutcome.noConfusion) (congrArg _ (send_queue hs))
  · intro _ ho
    rw [(send_waits hs).1] at ho
    cases ho
  · exact hp.of_pace (send_pace hs SendOutcome.noConfusion) (congrArg _ (send_queue hs))

theorem Tidy.answer_prompt_iff (h : Tidy a) (hp : Prompt a) (hb : a.answer r = .ok b) :
    Prompt b ↔ ¬r.Stirs a b := by
  cases r with
  | enqueue pool buffer priority =>
    cases hb
    have hpace : (a.enqueue pool buffer priority).2.1.pace = a.pace := (enqueue_keeps rfl).1
    have hdepth : (a.enqueue pool buffer priority).2.1.queue.depth = a.queue.depth :=
      (feedInvariant_depth a.queue.depth).enqueue rfl rfl
    exact iff_of_true (hp.of_pace hpace hdepth) id
  | elements change =>
    cases hb
    exact iff_of_true hp id
  | event e =>
    cases e with
    | setRateLimit rate now => exact h.setRateLimit_prompt_iff hb
    | setQueueDepth pool depth => exact h.setQueueDepth_prompt_iff hb
    | transmit pool f priority now =>
      refine h.prompt_iff_of_stirred hp rfl rfl hb fun hd hi => ?_
      obtain ⟨⟨_, _, _⟩, ht, rfl⟩ := ok_of_map hb
      exact transmit_stirred hd h.unqueued hi ht
    | onOutputReady pool now =>
      refine h.prompt_iff_of_stirred hp rfl rfl hb fun hd hi => ?_
      obtain ⟨⟨_, _⟩, ht, rfl⟩ := ok_of_map hb
      exact onOutputReady_stirred hd h.unqueued hi ht
    | onSourceReady pool now =>
      refine h.prompt_iff_of_stirred hp rfl rfl hb fun hd hi => ?_
      obtain ⟨⟨_, _⟩, ht, rfl⟩ := ok_of_map hb
      exact onSourceReady_stirred hd h.unqueued hi ht
    | onTimer pool now =>
      obtain ⟨⟨_, _, _⟩, ht, rfl⟩ := ok_of_map hb
      exact iff_of_true (h.onTimer_prompt hp ht) id
    | send f =>
      cases hb
      exact iff_of_true (hp.send f) id
    | removeElement name =>
      cases hb
      obtain ⟨_, hc⟩ := removeElement_orSame a name
      exact iff_of_true (hc ▸ hp) id
    | setElementTx name on =>
      cases hb
      obtain ⟨_, hc⟩ := modifyElement_orSame a name _
      exact iff_of_true (hc ▸ hp) id
    | setElementRx name on =>
      cases hb
      obtain ⟨_, hc⟩ := modifyElement_orSame a name _
      exact iff_of_true (hc ▸ hp) id
    | close pool =>
      cases hb
      exact iff_of_true (fun _ _ => rfl) id
    | _ =>
      cases hb
      exact iff_of_true hp id

/-! ## Sent or dropped -/

/-- The adapter `b` is `a` after the frame went out, by the channels its policy chose. -/
structure GoesOut (a : Adapter σ) (f : Frame) (b : Adapter σ) : Prop where
  taken : a.composite.takers f a.sourceOverride ≠ []
  logs : GrowsAt a.composite.logs b.composite.logs (f.leavingAs a.sourceOverride)
    (a.composite.takers f a.sourceOverride).contains
  sent : b.counters.framesSent = a.counters.framesSent + 1
  dropped : b.counters.framesDropped = a.counters.framesDropped

omit [FrameSource σ] in
/-- Without a rate the timer can always be set for the next frame. -/
theorem scheduleNext_unlimited (n : Nat) (hr : a.rate = .unlimited)
    (hnow : now < Instant.secondsBound * Duration.perSecond) :
    ∃ t : PacingTimer, a.scheduleNext n now = .ok { a with timer := t } := by
  have hs : a.scheduleNext n now = a.armAfter now (if a.hasWork then some 0 else none) := by
    unfold scheduleNext
    rw [hr]
  rw [hs]
  cases a.hasWork with
  | true =>
    refine ⟨{ deadline := some now }, ?_⟩
    show (PacingTimer.arm now 0).map _ = _
    rw [PacingTimer.arm_now hnow]
    rfl
  | false => exact ⟨.idle, rfl⟩

/-- With the timer at rest a frame goes out if an element takes it. -/
theorem Tidy.transmit_sent (h : Tidy a) (hd : Direct a) (ho : a.outputPending = false)
    (ht : a.timer.isArmed = false) (hnow : now < Instant.secondsBound * Duration.perSecond)
    (htakes : ∃ e ∈ a.elements, e.takes f a.sourceOverride = true) (pool : Pool)
    (priority : Bool) :
    ∃ b, a.transmit pool f priority now = .ok (.ok .sent, b, pool) ∧ GoesOut a f b := by
  have helements : a.elements.isEmpty = false := by
    obtain ⟨e, he, -⟩ := htakes
    exact List.isEmpty_eq_false_iff_exists_mem.2 ⟨e, he⟩
  have hidle : a.isIdle = true := by simp [isIdle, ht, ho, hd.1, RateLimit.isSuspended]
  have hsent : (a.send f).1 = .accepted := Composite.send_accepted_iff_takes.2 htakes
  obtain ⟨c, hc⟩ : ∃ c, a.send f = (.accepted, c) := ⟨_, Prod.ext hsent rfl⟩
  have hpace : c.pace = a.pace := send_pace hc SendOutcome.noConfusion
  have hrate : c.rate = .unlimited := (congrArg (·.1) hpace).trans hd.1
  obtain ⟨t, hs⟩ := scheduleNext_unlimited f.length hrate hnow
  refine ⟨{ c with timer := t }, ?_, ?_⟩
  · rw [transmit_unqueued hd.2 h.unqueued, helements, hidle, hc]
    dsimp only
    rw [hs]
    rfl
  · have hc' := send_eq hc
    constructor
    · exact Composite.send_accepted_iff.1 hsent
    · rw [hc']
      exact Composite.send_grows _ _ _
    · rw [hc']
      rfl
    · rw [hc']
      rfl

/-- With the timer set it is dropped, whatever the elements would take. -/
theorem Tidy.transmit_dropped (h : Tidy a) (hd : Direct a) (ht : a.timer.isArmed = true)
    (hsome : a.elements ≠ []) (pool : Pool) (f : Frame) (priority : Bool) (now : Instant) :
    a.transmit pool f priority now = .ok (.error .blocked, a.countDropped 1, pool) := by
  have helements : a.elements.isEmpty = false := List.isEmpty_eq_false_iff.2 hsome
  have hidle : a.isIdle = false := by simp [isIdle, ht]
  rw [transmit_unqueued hd.2 h.unqueued, helements, hidle, hd.1]
  rfl

/-- An adapter with neither a rate nor a queue is ready for the next frame throughout a history exactly
if no request of it set the timer. Ready, it sends a frame that some element takes; with the timer set
it drops that frame. -/
theorem direct_adapter_prompt_iff (owner : InterfaceId) (name : String) (rs : List (Request σ)) :
    (Throughout Prompt owner name rs ↔ Never (fun a r b => r.Stirs a b) owner name rs) ∧
    ∀ a, after owner name rs = .ok a → Direct a → a.outputPending = false →
      ∀ pool f priority now, now < Instant.secondsBound * Duration.perSecond →
        (∃ e ∈ a.elements, e.takes f a.sourceOverride = true) →
        (a.timer.isArmed = false →
          ∃ b, a.transmit pool f priority now = .ok (.ok .sent, b, pool) ∧ GoesOut a f b) ∧
        (a.timer.isArmed = true →
          a.transmit pool f priority now = .ok (.error .blocked, a.countDropped 1, pool)) := by
  have hnew : Tidy (new owner name : Adapter σ) :=
    ⟨fun _ => ⟨rfl, rfl⟩, fun _ => rfl⟩
  constructor
  · exact throughout_iff hnew Tidy.answer (fun _ _ => rfl) Tidy.answer_prompt_iff
  · intro a ha hd ho pool f priority now hnow htakes
    have h : Tidy a := after_keeps hnew Tidy.answer ha
    constructor
    · exact fun ht => h.transmit_sent hd ho ht hnow htakes pool priority
    · intro ht
      obtain ⟨e, he, -⟩ := htakes
      exact h.transmit_dropped hd ht (List.ne_nil_of_mem he) pool f priority now

/-- An open channel and a source. -/
def sourced : List (Request DeviceSource) :=
  [.event (.addElement (.new { name := "eth0" })), .event (.bindSource (.new { name := "vif0" }))]

/-- A frame is sent there. -/
def firstSent : List (Request DeviceSource) :=
  sourced ++ [.event (.transmit (.new 4 64) [1] false 0)]

/-- What the cases below need of an adapter, as far as it can be computed. -/
def outlook (a : Adapter DeviceSource) (f : Frame) : List Bool × QueueDepth :=
  ([a.rate.isPaced, a.rate.isSuspended, a.outputPending, a.hasSource, a.timer.isArmed,
    a.elements.any (·.takes f a.sourceOverride)], a.queue.depth)

/-- The first frame goes out and the second is lost, though the channel is as open as before. -/
theorem second_frame_lost :
    (∃ a b, after ⟨1⟩ "wan0" sourced = .ok a ∧
      a.transmit (.new 4 64) [1] false 0 = .ok (.ok .sent, b, .new 4 64) ∧ GoesOut a [1] b) ∧
    ¬Throughout Prompt ⟨1⟩ "wan0" firstSent ∧
    ∃ a, after ⟨1⟩ "wan0" firstSent = .ok a ∧
      (∃ e ∈ a.elements, e.takes [2] a.sourceOverride = true) ∧
      a.transmit (.new 4 64) [2] false 0 = .ok (.error .blocked, a.countDropped 1, .new 4 64) := by
  obtain ⟨a, ha, hshown⟩ : ∃ a, after ⟨1⟩ "wan0" sourced = .ok a ∧
      a.outlook [1] = ([false, false, false, true, false, true], .disabled) :=
    ok_of_shown (by decide +kernel)
  obtain ⟨c, hc, hlater⟩ : ∃ c, after ⟨1⟩ "wan0" firstSent = .ok c ∧
      c.outlook [2] = ([false, false, false, true, true, true], .disabled) :=
    ok_of_shown (by decide +kernel)
  simp only [outlook, Prod.mk.injEq, List.cons.injEq, and_true, List.any_eq_true] at hshown hlater
  obtain ⟨⟨hpaced, hsuspended, ho, hsource, ht, htakes⟩, hd⟩ := hshown
  obtain ⟨⟨hpaced', hsuspended', ho', -, ht', htakes'⟩, hd'⟩ := hlater
  have hdirect : Direct a := ⟨RateLimit.eq_unlimited hpaced hsuspended, hd⟩
  obtain ⟨b, hb, hout⟩ := ((direct_adapter_prompt_iff ⟨1⟩ "wan0" sourced).2 a ha hdirect ho
    (.new 4 64) [1] false 0 (by decide +kernel) htakes).1 ht
  refine ⟨⟨a, b, ha, hb, hout⟩, ?_, c, hc, htakes', ?_⟩
  · rw [(direct_adapter_prompt_iff ⟨1⟩ "wan0" firstSent).1]
    intro hno
    have hanswer : a.answer (.event (.transmit (.new 4 64) [1] false 0)) = .ok b :=
      congrArg (·.map (·.2.1)) hb
    have hsends : Sends a b := ⟨hsource, by have := hout.sent; omega⟩
    exact hno _ _ a b (List.prefix_refl _) ha hanswer ⟨hdirect, hsends⟩
  · have hdirect' : Direct c := ⟨RateLimit.eq_unlimited hpaced' hsuspended', hd'⟩
    exact ((direct_adapter_prompt_iff ⟨1⟩ "wan0" firstSent).2 c hc hdirect' ho' (.new 4 64) [2]
      false 0 (by decide +kernel) htakes').2 ht'

end Adapter
end MulticastRelay
