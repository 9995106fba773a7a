import MulticastRelay.Node.Turn
import MulticastRelay.Proofs.Adapter.Effects

/-! # Buffers of one adapter

Each operation of an adapter moves buffers between its queue and the pool, through at most a few
hands on the way: what the two lose is in hand, and what was in hand returns to one of them.
-/
namespace MulticastRelay

/-! ## Pools -/

namespace Pool

variable {p q : Pool} {b : Buffer}

theorem take_available (h : p.take? = some (b, q)) :
    q.available + 1 = p.available ∧ q.capacity = p.capacity := by
  unfold take? at h
  split at h
  · rename_i s rest hr
    cases h
    simp [available, hr]
    omega
  · rename_i hr
    split at h
    · cases h
      simp [available, hr]
      omega
    · cases h

theorem takeWith_available {f : Frame} (h : p.takeWith? f = some (b, q)) :
    q.available + 1 = p.available ∧ q.capacity = p.capacity := by
  obtain ⟨⟨c, r⟩, hx, he⟩ := Option.map_eq_some_iff.1 h
  cases he
  exact take_available hx

@[simp] theorem put_available (p : Pool) (b : Buffer) : (p.put b).available = p.available + 1 := by
  simp [put, available]
  omega

@[simp] theorem put_capacity (p : Pool) (b : Buffer) : (p.put b).capacity = p.capacity := rfl

@[simp] theorem putAll_available (p : Pool) (bs : List Buffer) :
    (p.putAll bs).available = p.available + bs.length := by
  unfold putAll
  induction bs generalizing p with
  | nil => rfl
  | cons b bs ih =>
    rw [List.foldl_cons, ih, put_available, List.length_cons]
    omega

@[simp] theorem putAll_capacity (p : Pool) (bs : List Buffer) :
    (p.putAll bs).capacity = p.capacity := by
  unfold putAll
  induction bs generalizing p with
  | nil => rfl
  | cons b bs ih => rw [List.foldl_cons, ih, put_capacity]

end Pool

/-! ## Queues -/

namespace FrameQueue

variable {q r : FrameQueue} {b : Buffer} {priority : Bool}

theorem push_length (h : q.push b priority = .ok r) : r.length = q.length + 1 := by
  obtain ⟨hp, ho⟩ := push_lanes h
  cases priority <;> simp [length, hp, ho] <;> omega

theorem pop_length (h : q.pop? = some (b, r)) : r.length + 1 = q.length := by
  unfold pop? at h
  split at h
  · rename_i rest ho hp
    cases h
    simp [length, hp]
    omega
  · rename_i rest hp ho
    cases h
    simp [length, hp, ho]
  · cases h

theorem setDepth_length (q : FrameQueue) (depth : QueueDepth) :
    (q.setDepth depth).2.length + (q.setDepth depth).1.length = q.length := by
  unfold setDepth
  split
  · rfl
  · simp [clear, length, toList]

end FrameQueue

theorem DeviceSource.pull_available (s : DeviceSource) (p : Pool) :
    (s.pull p).2.2.available + (s.pull p).1.toList.length = p.available ∧
      (s.pull p).2.2.capacity = p.capacity := by
  unfold DeviceSource.pull
  split
  · exact ⟨rfl, rfl⟩
  · rename_i buffer left ht
    obtain ⟨hn, hc⟩ := Pool.take_available ht
    split
    · exact ⟨hn, hc⟩
    · exact ⟨by rw [Pool.put_available]; exact hn, hc⟩

namespace Adapter

variable {σ : Type}

/-- Whose buffers the adapter keeps, and in what queue. -/
def custody (a : Adapter σ) : InterfaceId × FrameQueue := (a.owner, a.queue)

/-- From one adapter and pool to the next, no buffer appears or vanishes; `i` of them are in hand
before and `j` afterwards. -/
structure Conserves (a : Adapter σ) (p : Pool) (i : Nat) (b : Adapter σ) (q : Pool) (j : Nat) :
    Prop where
  owner : b.owner = a.owner
  capacity : q.capacity = p.capacity
  buffers : q.available + b.queueLength + j = p.available + a.queueLength + i

namespace Conserves

variable {a b c : Adapter σ} {p q r : Pool} {i j k : Nat}

theorem trans (h : Conserves a p i b q j) (h' : Conserves b q j c r k) : Conserves a p i c r k :=
  ⟨h'.owner.trans h.owner, h'.capacity.trans h.capacity, h'.buffers.trans h.buffers⟩

theorem of_custody (h : b.custody = a.custody) : Conserves a p i b p i := by
  obtain ⟨ho, hq⟩ := Prod.mk.inj h
  exact ⟨ho, rfl, by rw [queueLength, queueLength, show b.queue = a.queue from hq]⟩

theorem after (h : Conserves b p i c q j) (hb : b.custody = a.custody) : Conserves a p i c q j :=
  (of_custody hb).trans h

theorem put (a : Adapter σ) (p : Pool) (b : Buffer) (i : Nat) :
    Conserves a p (i + 1) a (p.put b) i :=
  ⟨rfl, rfl, by rw [Pool.put_available]; omega⟩

end Conserves

/-! ## Helpers that leave custody alone -/

section Custody

variable {a b : Adapter σ} {n : Nat} {now : Instant}

@[simp] theorem countDropped_custody (a : Adapter σ) (n : Nat) :
    (a.countDropped n).custody = a.custody := rfl

theorem send_custody {f : Frame} {o : SendOutcome} (h : a.send f = (o, b)) :
    b.custody = a.custody := by
  rw [send_eq h]
  cases o <;> rfl

theorem scheduleNext_custody (h : a.scheduleNext n now = .ok b) : b.custody = a.custody := by
  obtain ⟨t, rfl, -⟩ := scheduleNext_cases h
  rfl

theorem armRetry_custody (h : a.armRetry n now = .ok b) : b.custody = a.custody := by
  obtain ⟨t, rfl, -⟩ := armRetry_cases h
  rfl

theorem setRateLimit_custody {rate : Float} (h : a.setRateLimit rate now = .ok b) :
    b.custody = a.custody := by
  obtain ⟨t, rfl⟩ := setRateLimit_cases h
  rfl

theorem removeElement_custody {name : String} {e : Element}
    (h : a.removeElement name = .ok (e, b)) :
    b.custody = a.custody := by
  unfold removeElement at h
  split at h
  · cases h
    rfl
  · cases h

theorem modifyElement_custody {name : String} {f : Element → Element}
    (h : a.modifyElement name f = .ok b) : b.custody = a.custody := by
  unfold modifyElement at h
  split at h
  · cases h
    rfl
  · cases h

variable [FrameSource σ] (a : Adapter σ)

@[simp] theorem suspendSource_custody : a.suspendSource.custody = a.custody := by
  unfold suspendSource
  split
  · rfl
  · split <;> rfl

@[simp] theorem resumeSource_custody : a.resumeSource.custody = a.custody := by
  unfold resumeSource
  split <;> rfl

end Custody

/-! ## Operations -/

section Operations

variable {a b : Adapter σ} {p q : Pool} {i : Nat}

theorem Conserves.queued {c : Adapter σ} {queue : FrameQueue} {buffer : Buffer} {priority : Bool}
    (hq : a.queue.push buffer priority = .ok queue) (hc : c.owner = a.owner ∧ c.queue = queue) :
    Conserves a p (i + 1) c p i := by
  refine ⟨hc.1, rfl, ?_⟩
  have hl := FrameQueue.push_length hq
  rw [queueLength, queueLength, hc.2]
  omega

variable [FrameSource σ]

/-- A buffer in hand goes to the queue or back to the pool. -/
theorem enqueue_conserves {buffer : Buffer} {priority : Bool} {r : Except AdapterError Unit}
    (h : a.enqueue p buffer priority = (r, b, q)) : Conserves a p (i + 1) b q i := by
  unfold enqueue at h
  cases hq : a.queue.push buffer priority with
  | ok queue =>
    rw [hq] at h
    dsimp only at h
    split at h
    · cases h
      exact .queued hq (Prod.mk.inj (suspendSource_custody _))
    · cases h
      exact .queued hq ⟨rfl, rfl⟩
  | error e =>
    rw [hq] at h
    cases e with
    | full =>
      cases h
      exact (Conserves.put a p buffer i).trans (.of_custody (suspendSource_custody _))
    | disabled =>
      cases h
      exact (Conserves.put a p buffer i).trans (.of_custody rfl)

theorem hold_conserves {f : Frame} {priority : Bool} {reason : AdapterError}
    {r : Except AdapterError Delivery} (h : a.hold p f priority reason = (r, b, q)) :
    Conserves a p 0 b q 0 := by
  unfold hold at h
  split at h
  · cases h
    exact .of_custody rfl
  · split at h
    · cases h
      exact .of_custody rfl
    · rename_i buffer left ht
      obtain ⟨hn, hc⟩ := Pool.takeWith_available ht
      cases h
      exact Conserves.trans ⟨rfl, hc, by omega⟩ (enqueue_conserves rfl)

theorem setQueueDepth_conserves (a : Adapter σ) (p : Pool) (depth : QueueDepth) :
    Conserves a p i (a.setQueueDepth p depth).1 (a.setQueueDepth p depth).2 i := by
  refine ⟨congrArg Prod.fst (resumeSource_custody _), Pool.putAll_capacity _ _, ?_⟩
  have hl := FrameQueue.setDepth_length a.queue depth
  have hp : (a.setQueueDepth p depth).2.available =
      p.available + (a.queue.setDepth depth).1.length := Pool.putAll_available _ _
  rw [queueLength, queueLength, setQueueDepth_queue, hp]
  omega

theorem transmit_conserves {f : Frame} {priority : Bool} {now : Instant}
    {r : Except AdapterError Delivery} (h : a.transmit p f priority now = .ok (r, b, q)) :
    Conserves a p 0 b q 0 := by
  cases transmit_course h with
  | nowhere => exact .of_custody rfl
  | sent _ _ hs hc => exact .of_custody ((scheduleNext_custody hc).trans (send_custody hs))
  | blocked hs hh => exact (hold_conserves hh).after (send_custody hs)
  | failed _ hs hc hh =>
    exact (hold_conserves hh).after ((armRetry_custody hc).trans (send_custody hs))
  | lost _ _ hs => exact .of_custody ((countDropped_custody _ 1).trans (send_custody hs))
  | busy _ hh => exact hold_conserves hh

omit [FrameSource σ]

theorem close_conserves (a : Adapter σ) (p : Pool) :
    Conserves a p i (a.close p).1 (a.close p).2 i := by
  refine ⟨rfl, Pool.putAll_capacity _ _, ?_⟩
  have hp : (a.close p).2.available = p.available + a.queue.toList.length :=
    Pool.putAll_available _ _
  have hz : (a.close p).1.queueLength = 0 := rfl
  rw [hz, hp]
  simp [queueLength, FrameQueue.length, FrameQueue.toList]

end Operations

/-! ## Adapters fed by a device -/

section Stations

variable {a b : Station} {p q : Pool} {i : Nat} {now : Instant}

theorem pull_conserves {r : Option (Buffer × Bool)} (h : a.pull p = (r, b, q)) :
    Conserves a p i b q (i + r.toList.length) := by
  unfold pull at h
  split at h
  · cases h
    exact .of_custody rfl
  · rename_i source hs
    cases h
    obtain ⟨hn, hc⟩ := DeviceSource.pull_available source p
    refine ⟨rfl, hc, ?_⟩
    have hl : (source.pull p).2.2.available + a.queueLength +
        (i + (source.pull p).1.toList.length) =
        p.available + a.queueLength + i := by omega
    exact hl

theorem refill_conserves (a : Station) (p : Pool) :
    Conserves a p i (a.refill p).1 (a.refill p).2 i := by
  unfold refill
  split
  · exact .of_custody rfl
  · split
    · rename_i buffer priority b left hp
      exact (pull_conserves hp).trans (enqueue_conserves rfl)
    · rename_i b left hp
      exact pull_conserves hp

theorem advance_conserves (a : Station) (p : Pool) :
    Conserves a p i (a.advance p).1 (a.advance p).2 i := by
  unfold advance
  split
  · rename_i buffer queue hp
    have hl := FrameQueue.pop_length hp
    have popped : Conserves a p i { a with queue } (p.put buffer) i := by
      refine ⟨rfl, rfl, ?_⟩
      rw [Pool.put_available]
      simp only [queueLength]
      omega
    exact (popped.trans (.of_custody (resumeSource_custody _))).trans (refill_conserves _ _)
  · exact (refill_conserves _ _).after (resumeSource_custody _)

theorem service_conserves (h : a.service p now = .ok (b, q)) : Conserves a p i b q i := by
  cases service_course h with
  | suspended => exact .of_custody rfl
  | served _ _ hs hc =>
    exact ((advance_conserves _ p).after (send_custody hs)).trans
      (.of_custody (scheduleNext_custody hc))
  | retried _ _ hs hc => exact .of_custody ((armRetry_custody hc).trans (send_custody hs))
  | blocked _ _ hs => exact .of_custody (send_custody hs)
  | heldBack => exact .of_custody rfl
  | nothing _ _ _ hp => exact pull_conserves hp
  | @carried _ _ _ buffer _ left _ _ _ hp hs hc =>
    exact (pull_conserves hp).trans
      ((Conserves.put _ left buffer i).after ((scheduleNext_custody hc).trans (send_custody hs)))
  | kept _ _ _ hp hs he =>
    exact (pull_conserves hp).trans ((enqueue_conserves he).after (send_custody hs))
  | deferred _ _ _ hp hs he hc =>
    exact (pull_conserves hp).trans (((enqueue_conserves he).after (send_custody hs)).trans
      (.of_custody (armRetry_custody hc)))
  | lost _ _ _ hp hs he =>
    exact (pull_conserves hp).trans ((enqueue_conserves he).after (send_custody hs))

theorem onTimer_conserves {fired : Bool} (h : a.onTimer p now = .ok (fired, b, q)) :
    Conserves a p i b q i := by
  unfold onTimer at h
  split at h
  · cases h
    exact .of_custody rfl
  · dsimp only at h
    split at h
    · cases h
      exact .of_custody rfl
    · obtain ⟨⟨c, left⟩, hs, h⟩ := ok_of_bind h
      cases h
      exact (service_conserves hs).after rfl

theorem onOutputReady_conserves (h : a.onOutputReady p now = .ok (b, q)) :
    Conserves a p i b q i := by
  unfold onOutputReady at h
  split at h
  · cases h
    exact .of_custody rfl
  · dsimp only at h
    split at h
    · exact (service_conserves h).after rfl
    · cases h
      exact .of_custody rfl

theorem onSourceReady_conserves (h : a.onSourceReady p now = .ok (b, q)) :
    Conserves a p i b q i := by
  unfold onSourceReady at h
  split at h
  · exact service_conserves h
  · cases h
    exact .of_custody rfl

end Stations
end Adapter
end MulticastRelay
