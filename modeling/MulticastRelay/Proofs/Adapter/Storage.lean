import MulticastRelay.Proofs.Adapter.Buffers

/-! # Storage out of sight

Buffers of a pool are alike but for the octets left in them by earlier holders, which no holder sees.
So it does not matter which of the free buffers a frame is queued in: handing a frame to an adapter
comes to the same whatever pool lends the buffer, as long as it has one to lend.
-/
namespace MulticastRelay

/-! ## Buffers and pools -/

/-- The buffer without the storage past what is in view. -/
def Buffer.seen (b : Buffer) : Buffer := { b with storage := ⟨b.octets, b.length⟩ }

/-- A holder sees no difference. -/
@[simp] theorem Buffer.seen_octets (b : Buffer) : b.seen.octets = b.octets :=
  List.take_length

@[simp] theorem Buffer.seen_fill (b : Buffer) (f : Frame) :
    (b.fill f).seen = ⟨⟨f, f.length⟩, b.frameSize⟩ := by
  simp [seen, length]

namespace Pool

variable {p q : Pool} {b : Buffer} {f : Frame}

theorem take_frameSize (h : p.take? = some (b, q)) :
    b.frameSize = p.frameSize ∧ q.frameSize = p.frameSize := by
  unfold take? at h
  split at h
  · cases h
    exact ⟨rfl, rfl⟩
  · split at h
    · cases h
      exact ⟨rfl, rfl⟩
    · cases h

theorem takeWith_frameSize (h : p.takeWith? f = some (b, q)) :
    b.seen = ⟨⟨f, f.length⟩, p.frameSize⟩ ∧ q.frameSize = p.frameSize := by
  obtain ⟨⟨c, r⟩, ht, he⟩ := Option.map_eq_some_iff.1 h
  cases he
  obtain ⟨hc, hr⟩ := take_frameSize ht
  exact ⟨by rw [Buffer.seen_fill, hc], hr⟩

theorem take_eq_none_iff : p.take? = none ↔ p.available = 0 := by
  unfold take? available
  cases p.returned with
  | cons s rest => simp
  | nil => simp

/-- A pool with a free buffer lends one. -/
theorem exists_takeWith (h : 0 < p.available) (f : Frame) : ∃ b q, p.takeWith? f = some (b, q) := by
  unfold takeWith?
  cases ht : p.take? with
  | none => exact absurd (take_eq_none_iff.1 ht) (Nat.ne_of_gt h)
  | some x => exact ⟨x.1.fill f, x.2, rfl⟩

@[simp] theorem put_frameSize (p : Pool) (b : Buffer) : (p.put b).frameSize = p.frameSize := rfl

end Pool

/-! ## Queues -/

namespace FrameQueue

def seen (q : FrameQueue) : FrameQueue :=
  { q with priority := q.priority.map Buffer.seen, ordinary := q.ordinary.map Buffer.seen }

@[simp] theorem seen_depth (q : FrameQueue) : q.seen.depth = q.depth := rfl

@[simp] theorem seen_length (q : FrameQueue) : q.seen.length = q.length := by
  simp [length, seen]

@[simp] theorem seen_isFull (q : FrameQueue) : q.seen.isFull = q.isFull := by
  simp [isFull]

theorem push_seen (q : FrameQueue) (b : Buffer) (priority : Bool) :
    q.seen.push b.seen priority = (q.push b priority).map seen := by
  unfold push
  rw [seen_depth, seen_isFull]
  split
  · rfl
  · split
    · rfl
    · cases priority <;> simp [seen, Except.map]

end FrameQueue

/-! ## Adapters -/

namespace Adapter

variable {σ : Type} {a b : Adapter σ} {p q : Pool} {f : Frame} {priority : Bool} {now : Instant}

/-- The adapter without the storage that its buffers hold out of sight. -/
def seen (a : Adapter σ) : Adapter σ := { a with queue := a.queue.seen }

/-- What a request comes to, less the pool and all that is out of sight. -/
def shown {α : Type} (x : α × Adapter σ × Pool) : α × Adapter σ := (x.1, x.2.1.seen)

section Lending

variable [FrameSource σ]

theorem suspendSource_seen (a : Adapter σ) : a.suspendSource.seen = a.seen.suspendSource := by
  unfold suspendSource seen
  dsimp only
  split
  · rfl
  · split <;> rfl

theorem enqueue_seen (a : Adapter σ) (p q : Pool) (b : Buffer) (priority : Bool) :
    shown (a.enqueue p b priority) =
      ((a.seen.enqueue q b.seen priority).1, (a.seen.enqueue q b.seen priority).2.1) := by
  unfold enqueue shown
  rw [show a.seen.queue = a.queue.seen from rfl, FrameQueue.push_seen]
  cases a.queue.push b priority with
  | ok queue =>
    dsimp only [Except.map]
    rw [FrameQueue.seen_isFull]
    split
    · rw [suspendSource_seen]
      rfl
    · rfl
  | error e =>
    cases e with
    | full =>
      dsimp only [Except.map]
      rw [suspendSource_seen]
      rfl
    | disabled => rfl

/-- Which buffer holds a frame does not show. -/
theorem hold_shown (hp : 0 < p.available) (hq : 0 < q.available) (hs : p.frameSize = q.frameSize)
    (a : Adapter σ) (f : Frame) (priority : Bool) (reason : AdapterError) :
    shown (a.hold p f priority reason) = shown (a.hold q f priority reason) := by
  obtain ⟨b, p', hb⟩ := Pool.exists_takeWith hp f
  obtain ⟨c, q', hc⟩ := Pool.exists_takeWith hq f
  have hbc : b.seen = c.seen := by
    rw [(Pool.takeWith_frameSize hb).1, (Pool.takeWith_frameSize hc).1, hs]
  have he : shown (a.enqueue p' b priority) = shown (a.enqueue q' c priority) := by
    rw [enqueue_seen a p' p' b, enqueue_seen a q' p' c, hbc]
  obtain ⟨hr, ha⟩ := Prod.mk.inj he
  unfold hold
  rw [hb, hc]
  split
  · rfl
  · exact Prod.ext (congrArg (Except.map fun _ => Delivery.queued) hr) ha

/-- Handing a frame to an adapter comes to the same with any pool that has a buffer to lend. -/
theorem transmit_shown (hp : 0 < p.available) (hq : 0 < q.available)
    (hs : p.frameSize = q.frameSize) (a : Adapter σ) (f : Frame) (priority : Bool) (now : Instant) :
    (a.transmit p f priority now).map shown = (a.transmit q f priority now).map shown := by
  unfold transmit
  split
  · rfl
  · split
    · cases a.send f with
      | mk outcome b =>
        cases outcome with
        | accepted =>
          dsimp only
          cases b.scheduleNext f.length now <;> rfl
        | blocked => exact congrArg Except.ok (hold_shown hp hq hs b f priority _)
        | failed =>
          dsimp only
          split
          · cases b.armRetry f.length now with
            | error e => rfl
            | ok c => exact congrArg Except.ok (hold_shown hp hq hs c f priority _)
          · exact congrArg Except.ok (hold_shown hp hq hs b f priority _)
    · exact congrArg Except.ok (hold_shown hp hq hs a f priority _)

/-- How many buffers are kept for a frame that was taken so. -/
def kept : Except AdapterError Delivery → Nat
  | .ok .queued => 1
  | .ok .sent | .error _ => 0

theorem kept_le_one (r : Except AdapterError Delivery) : kept r ≤ 1 := by
  unfold kept
  split
  · exact Nat.le_refl 1
  · exact Nat.zero_le 1
  · exact Nat.zero_le 1

/-- One pool is what a request left of another. -/
structure Lent (p : Pool) (n : Nat) (q : Pool) : Prop where
  frameSize : q.frameSize = p.frameSize
  available : q.available + n = p.available

theorem hold_lent {rest : Pool} {reason : AdapterError} {r : Except AdapterError Delivery}
    (h : a.hold p f priority reason = (r, b, rest)) : Lent p (kept r) rest := by
  unfold hold at h
  split at h
  · cases h
    exact ⟨rfl, rfl⟩
  · split at h
    · cases h
      exact ⟨rfl, rfl⟩
    · rename_i buffer left ht
      have hs := (Pool.takeWith_frameSize ht).2
      have hn := (Pool.takeWith_available ht).1
      obtain ⟨c, -, -, ⟨he, -⟩ | ⟨e, he, -⟩⟩ := enqueue_cases a left buffer priority
      · rw [he] at h
        cases h
        exact ⟨hs, hn⟩
      · rw [he] at h
        cases h
        exact ⟨hs, by rw [Pool.put_available]; exact hn⟩

/-- A frame that is queued keeps one buffer, and any other keeps none. -/
theorem transmit_lent {rest : Pool} {r : Except AdapterError Delivery}
    (h : a.transmit p f priority now = .ok (r, b, rest)) : Lent p (kept r) rest := by
  cases transmit_course h with
  | nowhere | sent | lost => exact ⟨rfl, rfl⟩
  | blocked _ hh | failed _ _ _ hh | busy _ hh => exact hold_lent hh

end Lending
end Adapter
end MulticastRelay
