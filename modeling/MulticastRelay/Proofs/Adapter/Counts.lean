import MulticastRelay.Proofs.Adapter.Buffers
import MulticastRelay.Proofs.Adapter.Metering

/-! # Every frame is counted

A frame that an adapter takes in is counted as sent or dropped, or it waits in the queue. The frames
that came from sources are counted by a meter, whatever way they go afterwards.
-/
namespace MulticastRelay.Adapter

variable {σ : Type}

/-! ## What an adapter takes in -/

structure Intake where
  /-- Frames handed to an adapter that has an element. -/
  transmitted : Nat := 0
  /-- Frames that came from sources. -/
  yielded : Nat := 0
  /-- Buffers queued directly. -/
  enqueued : Nat := 0
  /-- Frames sent directly, with success. -/
  sent : Nat := 0
deriving DecidableEq, Repr

namespace Intake

def add (s t : Intake) : Intake where
  transmitted := s.transmitted + t.transmitted
  yielded := s.yielded + t.yielded
  enqueued := s.enqueued + t.enqueued
  sent := s.sent + t.sent

def total (t : Intake) : Nat := t.transmitted + t.yielded + t.enqueued + t.sent

theorem total_add (s t : Intake) : (s.add t).total = s.total + t.total := by
  simp only [add, total]
  omega

end Intake

section Runs

variable [FrameSource σ]

/-- The frames that the source yields while a request is answered. -/
def yields (a : Adapter σ) (r : Request σ) : Nat :=
  match a.metered.answer r.metered with
  | .ok b => b.reading
  | .error _ => 0

/-- A frame arrives unless there is no element to take it. -/
def arrivals : Except AdapterError Delivery → Nat
  | .error .noElements => 0
  | _ => 1

def intake (a : Adapter σ) (r : Request σ) : Intake where
  transmitted := match r with
    | .event (.transmit pool f priority now) =>
      match a.transmit pool f priority now with
      | .ok (result, _) => arrivals result
      | .error _ => 0
    | _ => 0
  yielded := a.yields r
  enqueued := match r with
    | .enqueue .. => 1
    | _ => 0
  sent := match r with
    | .event (.send f) => if (a.send f).1 = .accepted then 1 else 0
    | _ => 0

/-- An adapter with all that it took in since it was made. -/
inductive Counted : Adapter σ → Intake → Prop where
  | new (owner : InterfaceId) (name : String) : Counted (new owner name) {}
  | next {a b : Adapter σ} {t : Intake} (r : Request σ) : Counted a t → a.answer r = .ok b →
      Counted b (t.add (a.intake r))

end Runs

/-- The frames that the counters and the queue know of. -/
def accounted (a : Adapter σ) : Nat :=
  a.counters.framesSent + a.counters.framesDropped + a.queueLength

/-! ## Accounts under a meter -/

/-- From one adapter to the next, what is accounted for grows by what the meter counts and by the
frames in hand, `i` before and `j` afterwards. -/
def Tallies (a : Adapter (Metered σ)) (i : Nat) (b : Adapter (Metered σ)) (j : Nat) : Prop :=
  b.accounted + a.reading + j = a.accounted + b.reading + i

/-- What the counters, the queue and the meter say. -/
def books (a : Adapter (Metered σ)) : Nat × Nat × FrameQueue × Nat :=
  (a.counters.framesSent, a.counters.framesDropped, a.queue, a.reading)

namespace Tallies

variable {a b c : Adapter (Metered σ)} {i j k : Nat}

theorem trans (h : Tallies a i b j) (h' : Tallies b j c k) : Tallies a i c k := by
  unfold Tallies at *
  omega

theorem of_books (h : b.books = a.books) : Tallies a i b i := by
  simp only [books, Prod.mk.injEq] at h
  obtain ⟨hs, hd, hq, hr⟩ := h
  simp only [Tallies, accounted, queueLength, hs, hd, hq, hr]

theorem after (h : Tallies b i c j) (hb : b.books = a.books) : Tallies a i c j :=
  (of_books hb).trans h

/-- A frame that stays in hand throughout makes no difference. -/
theorem put_down (h : Tallies a (i + k) b (j + k)) : Tallies a i b j := by
  unfold Tallies at *
  omega

theorem dropped (a : Adapter (Metered σ)) (n : Nat) : Tallies a (i + n) (a.countDropped n) i := by
  simp only [Tallies, accounted, countDropped, queueLength, reading]
  omega

end Tallies

/-! ## Helpers that leave the books alone -/

section Books

variable {a b : Adapter (Metered σ)} {n : Nat} {now : Instant}

theorem scheduleNext_books (h : a.scheduleNext n now = .ok b) : b.books = a.books := by
  obtain ⟨t, rfl, -⟩ := scheduleNext_cases h
  rfl

theorem armRetry_books (h : a.armRetry n now = .ok b) : b.books = a.books := by
  obtain ⟨t, rfl, -⟩ := armRetry_cases h
  rfl

/-- A frame in hand that is accepted is counted; one that is refused stays in hand. -/
theorem send_tallies {f : Frame} {o : SendOutcome} {i : Nat} (h : a.send f = (o, b)) :
    Tallies a (i + if o = .accepted then 1 else 0) b i := by
  rw [send_eq h]
  cases o with
  | accepted =>
    simp only [Tallies, accounted, noteOutcome, queueLength, reading, if_true]
    omega
  | blocked => exact .of_books rfl
  | failed => exact .of_books rfl

variable [FrameSource σ]

theorem suspendSource_books (a : Adapter (Metered σ)) : a.suspendSource.books = a.books := by
  cases a with
  | mk _ _ _ _ _ _ _ _ _ source suspended => cases source <;> cases suspended <;> rfl

theorem resumeSource_books (a : Adapter (Metered σ)) : a.resumeSource.books = a.books := by
  unfold resumeSource
  split
  · rfl
  · cases a with
    | mk _ _ _ _ _ _ _ _ _ source => cases source <;> rfl

end Books

/-! ## Requests under a meter -/

section Requests

variable [FrameSource σ] {a b : Adapter (Metered σ)} {i : Nat} {pool rest : Pool} {now : Instant}

omit [FrameSource σ] in
theorem Tallies.queued {buffer : Buffer} {priority : Bool} {queue : FrameQueue}
    (h : a.queue.push buffer priority = .ok queue)
    (hb : b.books = (a.counters.framesSent, a.counters.framesDropped, queue, a.reading)) :
    Tallies a (i + 1) b i := by
  have hl := FrameQueue.push_length h
  simp only [books, Prod.mk.injEq] at hb
  obtain ⟨hs, hd, hq, hr⟩ := hb
  simp only [Tallies, accounted, queueLength, hs, hd, hq, hr, hl]
  omega

/-- A buffer in hand is queued, or counted as dropped. -/
theorem enqueue_tallies {buffer : Buffer} {priority : Bool} {r : Except AdapterError Unit}
    (h : a.enqueue pool buffer priority = (r, b, rest)) : Tallies a (i + 1) b i := by
  unfold enqueue at h
  cases hq : a.queue.push buffer priority with
  | ok queue =>
    rw [hq] at h
    dsimp only at h
    split at h
    · cases h
      exact .queued hq (suspendSource_books _)
    · cases h
      exact .queued hq rfl
  | error e =>
    rw [hq] at h
    cases e with
    | full =>
      cases h
      exact (Tallies.dropped a 1).trans (.of_books (suspendSource_books _))
    | disabled =>
      cases h
      exact .dropped a 1

theorem hold_tallies {f : Frame} {priority : Bool} {reason : AdapterError}
    {r : Except AdapterError Delivery} (h : a.hold pool f priority reason = (r, b, rest)) :
    Tallies a (i + 1) b i := by
  unfold hold at h
  split at h
  · cases h
    exact .dropped a 1
  · split at h
    · cases h
      exact .dropped a 1
    · cases h
      exact enqueue_tallies rfl

theorem enqueue_arrivals (a : Adapter (Metered σ)) (pool : Pool)
    (buffer : Buffer) (priority : Bool) :
    arrivals ((a.enqueue pool buffer priority).1.map fun _ => .queued) = 1 := by
  unfold enqueue
  cases a.queue.push buffer priority with
  | ok queue => rfl
  | error e => cases e <;> rfl

theorem hold_arrivals {f : Frame} {priority : Bool} {reason : AdapterError}
    {r : Except AdapterError Delivery} (h : a.hold pool f priority reason = (r, b, rest))
    (hr : reason ≠ .noElements) : arrivals r = 1 := by
  unfold hold at h
  split at h
  · cases h
    cases reason <;> first | rfl | exact absurd rfl hr
  · split at h
    · cases h
      rfl
    · cases h
      exact enqueue_arrivals a _ _ priority

theorem transmit_tallies {f : Frame} {priority : Bool} {r : Except AdapterError Delivery}
    (h : a.transmit pool f priority now = .ok (r, b, rest)) : Tallies a (arrivals r) b 0 := by
  cases transmit_course h with
  | nowhere => exact .of_books rfl
  | sent _ _ hs hc => exact (send_tallies (i := 0) hs).trans (.of_books (scheduleNext_books hc))
  | blocked hs hh =>
    rw [hold_arrivals hh (by decide)]
    exact (send_tallies (i := 1) hs).trans (hold_tallies hh)
  | failed _ hs hc hh =>
    rw [hold_arrivals hh (by decide)]
    exact ((send_tallies (i := 1) hs).trans (.of_books (armRetry_books hc))).trans (hold_tallies hh)
  | lost _ _ hs => exact (send_tallies (i := 1) hs).trans (.dropped _ 1)
  | busy _ hh =>
    rw [hold_arrivals hh (by split <;> decide)]
    exact hold_tallies hh

/-- What the source yields is in hand. -/
theorem pull_tallies {r : Option (Buffer × Bool)} (h : a.pull pool = (r, b, rest)) :
    Tallies a i b (i + r.toList.length) := by
  unfold pull at h
  split at h
  · cases h
    exact .of_books rfl
  · rename_i m hs
    cases h
    have hm : (FrameSource.pull m pool).2.1.yielded =
        m.yielded + (FrameSource.pull m pool).1.toList.length := rfl
    simp only [Tallies, accounted, queueLength, reading, hs, Option.map_some, Option.getD_some]
    omega

theorem refill_tallies (a : Adapter (Metered σ)) (pool : Pool) :
    Tallies a i (a.refill pool).1 i := by
  unfold refill
  split
  · exact .of_books rfl
  · split
    · rename_i buffer priority b left hp
      exact (pull_tallies hp).trans (enqueue_tallies rfl)
    · rename_i b left hp
      exact pull_tallies hp

/-- The frame that went out is taken off the queue. -/
theorem advance_tallies {buffer : Buffer} {queue : FrameQueue}
    (h : a.queue.pop? = some (buffer, queue)) : Tallies a i (a.advance pool).1 (i + 1) := by
  have hl := FrameQueue.pop_length h
  have popped : Tallies a i { a with queue } (i + 1) := by
    simp only [Tallies, accounted, queueLength, reading]
    omega
  unfold advance
  rw [h]
  exact (popped.trans (.of_books (resumeSource_books _))).trans (refill_tallies _ _)

theorem service_tallies (h : a.service pool now = .ok (b, rest)) : Tallies a i b i := by
  cases service_course h with
  | suspended => exact .of_books rfl
  | @served d _ front _ hf hs hc =>
    have hq : d.queue.pop? ≠ none := by
      rw [send_queue hs]
      intro hn
      simp [FrameQueue.front?_of_pop? hn] at hf
    obtain ⟨popped, hp⟩ := Option.ne_none_iff_exists'.1 hq
    have hb : Tallies a (i + 1) b (i + 1) :=
      ((send_tallies hs).trans (advance_tallies hp)).trans (.of_books (scheduleNext_books hc))
    exact hb.put_down
  | retried _ _ hs hc => exact (send_tallies hs).trans (.of_books (armRetry_books hc))
  | blocked _ _ hs => exact send_tallies hs
  | heldBack => exact .of_books rfl
  | nothing _ _ _ hp => exact pull_tallies hp
  | carried _ _ _ hp hs hc =>
    exact ((pull_tallies hp).trans (send_tallies hs)).trans (.of_books (scheduleNext_books hc))
  | kept _ _ _ hp hs he =>
    exact ((pull_tallies hp).trans (send_tallies hs)).trans (enqueue_tallies he)
  | deferred _ _ _ hp hs he hc =>
    exact (((pull_tallies hp).trans (send_tallies hs)).trans (enqueue_tallies he)).trans
      (.of_books (armRetry_books hc))
  | lost _ _ _ hp hs he =>
    exact ((pull_tallies hp).trans (send_tallies hs)).trans (enqueue_tallies he)

theorem onTimer_tallies {fired : Bool} (h : a.onTimer pool now = .ok (fired, b, rest)) :
    Tallies a i b i := by
  unfold onTimer at h
  split at h
  · cases h
    exact .of_books rfl
  · dsimp only at h
    split at h
    · cases h
      exact .of_books rfl
    · obtain ⟨⟨c, left⟩, hs, h⟩ := ok_of_bind h
      cases h
      exact (service_tallies hs).after rfl

theorem onOutputReady_tallies (h : a.onOutputReady pool now = .ok (b, rest)) :
    Tallies a i b i := by
  unfold onOutputReady at h
  split at h
  · cases h
    exact .of_books rfl
  · dsimp only at h
    split at h
    · exact (service_tallies h).after rfl
    · cases h
      exact .of_books rfl

theorem onSourceReady_tallies (h : a.onSourceReady pool now = .ok (b, rest)) :
    Tallies a i b i := by
  unfold onSourceReady at h
  split at h
  · exact service_tallies h
  · cases h
    exact .of_books rfl

/-- The frames that a lower depth loses are counted as dropped. -/
theorem setQueueDepth_tallies (a : Adapter (Metered σ)) (pool : Pool) (depth : QueueDepth) :
    Tallies a i (a.setQueueDepth pool depth).1 i := by
  have hl := FrameQueue.setDepth_length a.queue depth
  have emptied : Tallies a i { a with queue := (a.queue.setDepth depth).2 }
      (i + (a.queue.setDepth depth).1.length) := by
    simp only [Tallies, accounted, queueLength, reading]
    omega
  exact (emptied.trans (.dropped _ _)).trans (.of_books (resumeSource_books _))

omit [FrameSource σ]

theorem close_tallies (a : Adapter (Metered σ)) (pool : Pool) : Tallies a i (a.close pool).1 i := by
  have hl : a.queue.toList.length = a.queueLength := List.length_append
  have emptied : Tallies a i { a with queue := a.queue.clear.2 } (i + a.queue.toList.length) := by
    rw [hl]
    simp only [Tallies, accounted, queueLength, reading, FrameQueue.clear, FrameQueue.length,
      List.length_nil]
    omega
  exact (emptied.trans (.dropped _ _)).trans (.of_books rfl)

theorem setRateLimit_books {rate : Float} (h : a.setRateLimit rate now = .ok b) :
    b.books = a.books := by
  obtain ⟨t, rfl⟩ := setRateLimit_cases h
  rfl

theorem removeElement_books (a : Adapter (Metered σ)) (name : String) :
    (a.orSame ((a.removeElement name).map (·.2))).books = a.books := by
  unfold removeElement
  cases a.composite.detach? name <;> rfl

theorem modifyElement_books (a : Adapter (Metered σ)) (name : String) (change : Element → Element) :
    (a.orSame (a.modifyElement name change)).books = a.books := by
  unfold modifyElement
  split <;> rfl

end Requests

/-! ## Runs -/

section Runs

variable [FrameSource σ]

/-- Under a meter just attached, what is accounted for grows by what comes in and by what the meter
counts. -/
theorem answer_tallies {a : Adapter σ} {b : Adapter (Metered σ)} (r : Request σ)
    (h : a.metered.answer r.metered = .ok b) :
    Tallies a.metered ((a.intake r).transmitted + (a.intake r).enqueued + (a.intake r).sent) b 0 := by
  cases r with
  | enqueue pool buffer priority =>
    cases h
    exact enqueue_tallies rfl
  | elements change =>
    cases h
    exact .of_books rfl
  | event e =>
    cases e with
    | removeElement name =>
      cases h
      exact .of_books (removeElement_books _ name)
    | setElementTx name on =>
      cases h
      exact .of_books (modifyElement_books _ name _)
    | setElementRx name on =>
      cases h
      exact .of_books (modifyElement_books _ name _)
    | setRateLimit rate now => exact .of_books (setRateLimit_books h)
    | setQueueDepth pool depth =>
      cases h
      exact setQueueDepth_tallies _ pool depth
    | send f =>
      cases h
      have ho : (a.send f).1 = (a.metered.send f).1 := by
        rw [← unmetered_metered a, unmetered_send, unmetered_metered]
      simp only [intake, ho]
      exact send_tallies rfl
    | transmit pool f priority now =>
      obtain ⟨⟨r, c, rest⟩, hc, rfl⟩ := ok_of_map h
      have ht : a.transmit pool f priority now = .ok (r, c.unmetered, rest) := by
        rw [← unmetered_metered a, unmetered_transmit, hc]
        rfl
      simp only [intake, ht]
      exact transmit_tallies hc
    | onTimer pool now =>
      obtain ⟨⟨r, c, rest⟩, hc, rfl⟩ := ok_of_map h
      exact onTimer_tallies hc
    | onOutputReady pool now =>
      obtain ⟨⟨c, rest⟩, hc, rfl⟩ := ok_of_map h
      exact onOutputReady_tallies hc
    | onSourceReady pool now =>
      obtain ⟨⟨c, rest⟩, hc, rfl⟩ := ok_of_map h
      exact onSourceReady_tallies hc
    | close pool =>
      cases h
      exact close_tallies _ pool
    | bindSource source | unbindSource | producer change =>
      cases h
      refine .of_books ?_
      cases a with
      | mk _ _ _ _ _ _ _ _ _ source => cases source <;> rfl
    | addElement | setPolicy | bindVif | unbindVif | setShadow | channels =>
      cases h
      exact .of_books rfl

theorem answer_accounted {a b : Adapter σ} (r : Request σ) (h : a.answer r = .ok b) :
    b.accounted = a.accounted + (a.intake r).total := by
  have hm := unmetered_answer a.metered r
  rw [unmetered_metered, h] at hm
  obtain ⟨c, hc, rfl⟩ := ok_of_map hm.symm
  have ht := answer_tallies r hc
  have hy : (a.intake r).yielded = c.reading := by
    simp only [intake, yields, hc]
  have ha : a.metered.accounted = a.accounted := rfl
  have hb : c.unmetered.accounted = c.accounted := rfl
  rw [Tallies, reading_metered, ha] at ht
  rw [Intake.total, hy, hb]
  omega

/-- At every moment of every run, the frames sent, dropped and queued are all that came in. -/
theorem counted_balance {a : Adapter σ} {t : Intake} (h : Counted a t) :
    a.counters.framesSent + a.counters.framesDropped + a.queueLength =
      t.transmitted + t.yielded + t.enqueued + t.sent := by
  change a.accounted = t.total
  induction h with
  | new owner name => rfl
  | next r _ hb ih => rw [answer_accounted r hb, ih, Intake.total_add]

/-- Of five frames two are sent, one waits and two meet a full queue. -/
theorem crowded_channel_balances : ∃ (a : Adapter DeviceSource) (t : Intake), Counted a t ∧
    t = { transmitted := 2, yielded := 1, enqueued := 1, sent := 1 } ∧
    a.counters.framesSent = 2 ∧ a.counters.framesDropped = 2 ∧ a.queueLength = 1 ∧
    a.counters.framesSent + a.counters.framesDropped + a.queueLength =
      t.transmitted + t.yielded + t.enqueued + t.sent := by
  let pool : Pool := .new 4 3
  let feed : Device := { name := "vif0", inbound := [([7, 8, 9], .inbound)] }
  let full : Adapter DeviceSource :=
    { owner := ⟨1⟩, name := "wan0", outputPending := true
      composite.elements :=
        [{ device := { name := "eth1", sent := [[10, 11]], watching := ⟨true, true⟩ }
           interest := ⟨true, true⟩
           counters := { framesSent := 1, bytesSent := 2, wouldBlock := 1 } }]
      queue := { depth := .bounded 1, ordinary := [⟨⟨[1, 2, 3], 3⟩, 3⟩] }
      counters := { framesSent := 1, bytesSent := 2, framesQueued := 1, blockedEvents := 1 } }
  have fresh : Counted (new ⟨1⟩ "wan0" : Adapter DeviceSource) {} := .new _ _
  have attached :=
    fresh.next (.event (.addElement (.new { name := "eth1", script := [.accept, .block] }))) rfl
  have direct := attached.next (.event (.send [10, 11])) rfl
  have queueing := direct.next (.event (.setQueueDepth pool (.bounded 1))) rfl
  have refused : Counted full { transmitted := 1, sent := 1 } :=
    queueing.next (.event (.transmit pool [1, 2, 3] false 0)) rfl
  have crowded := refused.next (.event (.transmit pool [4, 5, 6] false 0)) rfl
  have squeezed := crowded.next (.enqueue pool ⟨{}, 3⟩ true) rfl
  have fed := squeezed.next (.event (.bindSource (.new feed))) rfl
  have roomy := fed.next (.event (.onOutputReady pool 0)) rfl
  exact ⟨_, _, roomy, rfl, rfl, rfl, rfl, counted_balance roomy⟩

end Runs
end MulticastRelay.Adapter
