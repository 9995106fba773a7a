import MulticastRelay.Proofs.Adapter.Effects
import MulticastRelay.Proofs.Adapter.Metering

/-! # Pacing

At a rate in bytes per second every frame that leaves sets the timer to the gap after it, and nothing
leaves before the timer fires. The clock is the caller's: a timer that fired at a later time than the
one now given holds nothing back.
-/
namespace MulticastRelay.Adapter

variable {σ : Type} {a b c d : Adapter σ} {rate : Float} {n : Nat} {now : Instant}

/-! ## Time -/

/-- The time at which an event comes about, if it has one. -/
def Event.time? : Event σ → Option Instant
  | .setRateLimit _ now => some now
  | .transmit _ _ _ now => some now
  | .onTimer _ now => some now
  | .onOutputReady _ now => some now
  | .onSourceReady _ now => some now
  | _ => none

def Request.time? : Request σ → Option Instant
  | .event e => e.time?
  | _ => none

/-- A request that leaves the rate as it is and sends nothing past the timer; closing stops the timer. -/
def Request.isPaced : Request σ → Bool
  | .event (.setRateLimit ..) => false
  | .event (.send _) => false
  | .event (.close _) => false
  | _ => true

/-- No deadline is ahead. -/
def Free (a : Adapter σ) (now : Instant) : Prop := ∀ due, a.timer.deadline = some due → due ≤ now

theorem free_of_stopped (h : a.timer.isArmed = false) : Free a now := by
  intro due hd
  simp [PacingTimer.isArmed, hd] at h

theorem free_of_idle (h : a.isIdle = true) : Free a now := by
  simp only [isIdle, Bool.and_eq_true, Bool.not_eq_true'] at h
  exact free_of_stopped h.1.1

theorem free_of_due (h : a.timer.isDue now = true) : Free a now := by
  intro due hd
  simpa [PacingTimer.isDue, hd] using h

/-! ## The frames that leave -/

/-- The rate, with the number and the bytes of the frames that have left. -/
def outlet (a : Adapter σ) : RateLimit × Nat × Nat :=
  (a.rate, a.counters.framesSent, a.counters.bytesSent)

/-- One frame left, and the timer is set to the gap after it. -/
structure Departs (a b : Adapter σ) (now : Instant) : Prop where
  one : b.counters.framesSent = a.counters.framesSent + 1
  spaced : ∃ gap, a.rate.interval (b.counters.bytesSent - a.counters.bytesSent) = .ok (some gap) ∧
    b.timer.deadline = some (now + gap)

/-- The rate stands, and at most one frame left. -/
structure Moves (a b : Adapter σ) (now : Instant) : Prop where
  rate : b.rate = a.rate
  departs : b.outlet = a.outlet ∨ Departs a b now

theorem Moves.still (h : b.outlet = a.outlet) : Moves a b now := ⟨congrArg (·.1) h, .inl h⟩

theorem Moves.after (h : Moves b c now) (hb : b.outlet = a.outlet) : Moves a c now := by
  obtain ⟨hr, hf, hn⟩ : b.rate = a.rate ∧ b.counters.framesSent = a.counters.framesSent ∧
      b.counters.bytesSent = a.counters.bytesSent := by simpa [outlet] using hb
  refine ⟨h.rate.trans hr, h.departs.imp (·.trans hb) fun hd => ⟨hf ▸ hd.one, ?_⟩⟩
  rw [← hr, ← hn]
  exact hd.spaced

theorem send_outlet {f : Frame} {o : SendOutcome} (h : a.send f = (o, b)) (ho : o ≠ .accepted) :
    b.outlet = a.outlet := by
  rw [send_eq h]
  cases o with
  | accepted => exact absurd rfl ho
  | blocked => rfl
  | failed => rfl

theorem armRetry_outlet (h : a.armRetry n now = .ok b) : b.outlet = a.outlet := by
  obtain ⟨t, rfl, -⟩ := armRetry_cases h
  rfl

/-- At a rate the timer is always set, to the gap after the frame. -/
theorem scheduleNext_paced (hr : a.rate = .bytesPerSecond rate) (h : a.scheduleNext n now = .ok b) :
    ∃ gap, a.rate.interval n = .ok (some gap) ∧ b = { a with timer := ⟨some (now + gap)⟩ } := by
  unfold scheduleNext at h
  rw [hr] at h
  obtain ⟨delay, hd, h⟩ := ok_of_bind h
  obtain ⟨gap, -, rfl⟩ := ok_of_map (show (Duration.ofSeconds _).map some = .ok delay from hd)
  obtain ⟨t, ht, rfl⟩ := ok_of_map h
  obtain ⟨due, hdue, rfl⟩ := ok_of_map ht
  unfold Instant.after at hdue
  split at hdue
  · cases hdue
    exact ⟨gap, hr ▸ hd, rfl⟩
  · cases hdue

/-- A frame that is accepted sets the timer to the gap after it, whatever is queued before that. -/
theorem send_departs {f : Frame} (hr : a.rate = .bytesPerSecond rate)
    (hs : a.send f = (.accepted, b)) (hc : c.outlet = b.outlet)
    (hd : c.scheduleNext f.length now = .ok d) : Moves a d now := by
  obtain ⟨hrate, hf, hn⟩ : c.rate = b.rate ∧ c.counters.framesSent = b.counters.framesSent ∧
      c.counters.bytesSent = b.counters.bytesSent := by simpa [outlet] using hc
  rw [send_eq hs] at hrate hf hn
  have hca : c.rate = a.rate := hrate
  obtain ⟨gap, hgap, rfl⟩ := scheduleNext_paced (hca.trans hr) hd
  have hlen : c.counters.bytesSent - a.counters.bytesSent = f.length := by
    rw [hn]
    exact Nat.add_sub_cancel_left ..
  refine ⟨hca, .inr ⟨hf, gap, ?_, rfl⟩⟩
  rw [← hca]
  exact hlen ▸ hgap

section Queueing

variable [FrameSource σ] {pool rest : Pool}

theorem suspendSource_outlet (a : Adapter σ) : a.suspendSource.outlet = a.outlet := by
  unfold suspendSource
  split
  · rfl
  · split <;> rfl

theorem resumeSource_outlet (a : Adapter σ) : a.resumeSource.outlet = a.outlet := by
  unfold resumeSource
  split <;> rfl

theorem enqueue_outlet {buffer : Buffer} {priority : Bool} {r : Except AdapterError Unit}
    (h : a.enqueue pool buffer priority = (r, b, rest)) : b.outlet = a.outlet := by
  unfold enqueue at h
  split at h
  · cases h
    split
    · exact suspendSource_outlet _
    · rfl
  · cases h
    exact suspendSource_outlet _
  · cases h
    rfl

theorem hold_outlet {f : Frame} {priority : Bool} {reason : AdapterError}
    {r : Except AdapterError Delivery} (h : a.hold pool f priority reason = (r, b, rest)) :
    b.outlet = a.outlet := by
  unfold hold at h
  split at h
  · cases h
    rfl
  · split at h
    · cases h
      rfl
    · cases h
      exact enqueue_outlet rfl

theorem pull_outlet {r : Option (Buffer × Bool)} (h : a.pull pool = (r, b, rest)) :
    b.outlet = a.outlet := by
  unfold pull at h
  split at h <;> cases h <;> rfl

theorem refill_outlet (a : Adapter σ) (pool : Pool) : (a.refill pool).1.outlet = a.outlet := by
  unfold refill
  split
  · rfl
  · split
    · rename_i hp
      exact (enqueue_outlet rfl).trans (pull_outlet hp)
    · rename_i hp
      exact pull_outlet hp

theorem advance_outlet (a : Adapter σ) (pool : Pool) : (a.advance pool).1.outlet = a.outlet := by
  unfold advance
  split
  · exact (refill_outlet ..).trans (resumeSource_outlet _)
  · exact (refill_outlet ..).trans (resumeSource_outlet _)

end Queueing

/-! ## One request -/

section Requests

variable [FrameSource σ] {pool rest : Pool}

/-- An adapter that is not idle sends nothing of what it is handed, and its timer stands. -/
theorem transmit_busy {f : Frame} {priority : Bool} {r : Except AdapterError Delivery}
    (hi : a.isIdle = false) (h : a.transmit pool f priority now = .ok (r, b, rest)) :
    b.outlet = a.outlet ∧ b.pace = a.pace := by
  unfold transmit at h
  split at h
  · cases h
    exact ⟨rfl, rfl⟩
  · rw [hi, Bool.false_and, if_neg Bool.false_ne_true] at h
    have hh := Except.ok.inj h
    exact ⟨hold_outlet hh, (hold_keeps hh).1⟩

theorem transmit_paced {f : Frame} {priority : Bool} {r : Except AdapterError Delivery}
    (hr : a.rate = .bytesPerSecond rate) (h : a.transmit pool f priority now = .ok (r, b, rest)) :
    (b.outlet = a.outlet ∧ b.timer = a.timer) ∨ Free a now ∧ Moves a b now := by
  cases hi : a.isIdle with
  | false => exact .inl ((transmit_busy hi h).imp_right fun hp => congrArg (·.2.1) hp)
  | true =>
    refine .inr ⟨free_of_idle hi, ?_⟩
    cases transmit_course h with
    | nowhere => exact .still rfl
    | sent _ _ hs hc => exact send_departs hr hs rfl hc
    | blocked hs hh => exact .still ((hold_outlet hh).trans (send_outlet hs (by decide)))
    | failed _ hs hc hh =>
      exact .still ((hold_outlet hh).trans ((armRetry_outlet hc).trans (send_outlet hs (by decide))))
    | @lost c _ _ hs =>
      have hc : c.outlet = a.outlet := send_outlet hs (by decide)
      exact .still hc
    | busy _ hh => exact .still (hold_outlet hh)

theorem service_moves (hr : a.rate = .bytesPerSecond rate) (h : a.service pool now = .ok (b, rest)) :
    Moves a b now := by
  cases service_course h with
  | suspended => exact .still rfl
  | served _ _ hs hc => exact send_departs hr hs (advance_outlet ..) hc
  | retried _ _ hs hc => exact .still ((armRetry_outlet hc).trans (send_outlet hs (by decide)))
  | blocked _ _ hs => exact .still (send_outlet hs (by decide))
  | heldBack => exact .still rfl
  | nothing _ _ _ hp => exact .still (pull_outlet hp)
  | carried _ _ _ hp hs hc =>
    have hb := pull_outlet hp
    exact (send_departs ((congrArg (·.1) hb).trans hr) hs rfl hc).after hb
  | kept _ _ _ hp hs he =>
    exact .still ((enqueue_outlet he).trans ((send_outlet hs (by decide)).trans (pull_outlet hp)))
  | deferred _ _ _ hp hs he hc =>
    exact .still ((armRetry_outlet hc).trans ((enqueue_outlet he).trans
      ((send_outlet hs (by decide)).trans (pull_outlet hp))))
  | lost _ _ _ hp hs he =>
    exact .still ((enqueue_outlet he).trans ((send_outlet hs (by decide)).trans (pull_outlet hp)))

/-- The timer sends when it is due, and stands until then. -/
theorem onTimer_paced {fired : Bool} (hr : a.rate = .bytesPerSecond rate)
    (h : a.onTimer pool now = .ok (fired, b, rest)) :
    (b.outlet = a.outlet ∧ b.timer = a.timer) ∨ Free a now ∧ Moves a b now := by
  obtain rfl | ⟨hdue, rfl | hs⟩ := onTimer_course h
  · exact .inl ⟨rfl, rfl⟩
  · exact .inr ⟨free_of_due hdue, .still rfl⟩
  · have hm : Moves { a with timer := .idle } b now := service_moves hr hs
    exact .inr ⟨free_of_due hdue, hm.after rfl⟩

/-- Room in the channels lets a frame leave only while the timer is stopped. -/
theorem onOutputReady_paced (hr : a.rate = .bytesPerSecond rate)
    (h : a.onOutputReady pool now = .ok (b, rest)) :
    (b.outlet = a.outlet ∧ b.timer = a.timer) ∨ Free a now ∧ Moves a b now := by
  obtain rfl | rfl | ⟨ht, hs⟩ := onOutputReady_course h
  · exact .inl ⟨rfl, rfl⟩
  · exact .inl ⟨rfl, rfl⟩
  · have hm : Moves a.endWait b now := service_moves hr hs
    exact .inr ⟨free_of_stopped ht, hm.after rfl⟩

theorem onSourceReady_paced (hr : a.rate = .bytesPerSecond rate)
    (h : a.onSourceReady pool now = .ok (b, rest)) :
    (b.outlet = a.outlet ∧ b.timer = a.timer) ∨ Free a now ∧ Moves a b now := by
  obtain rfl | ⟨hi, hs⟩ := onSourceReady_course h
  · exact .inl ⟨rfl, rfl⟩
  · exact .inr ⟨free_of_idle hi, service_moves hr hs⟩

/-- A request at a rate leaves outlet and timer as they are, or it comes when no deadline is ahead. -/
theorem answer_paced {r : Request σ} (hr : a.rate = .bytesPerSecond rate) (hp : r.isPaced = true)
    (h : a.answer r = .ok b) :
    (b.outlet = a.outlet ∧ b.timer = a.timer) ∨
      ∃ now, r.time? = some now ∧ Free a now ∧ Moves a b now := by
  cases r with
  | enqueue pool buffer priority =>
    cases h
    exact .inl ⟨enqueue_outlet rfl, congrArg (·.2.1) (enqueue_keeps rfl).1⟩
  | elements change =>
    cases h
    exact .inl ⟨rfl, rfl⟩
  | event e =>
    replace h : a.next e = .ok b := h
    cases e with
    | setRateLimit => cases hp
    | send => cases hp
    | close => cases hp
    | removeElement name =>
      cases h
      obtain ⟨_, hc⟩ := removeElement_orSame a name
      exact .inl (hc ▸ ⟨rfl, rfl⟩)
    | setElementTx name on =>
      cases h
      obtain ⟨_, hc⟩ := modifyElement_orSame a name _
      exact .inl (hc ▸ ⟨rfl, rfl⟩)
    | setElementRx name on =>
      cases h
      obtain ⟨_, hc⟩ := modifyElement_orSame a name _
      exact .inl (hc ▸ ⟨rfl, rfl⟩)
    | setQueueDepth pool depth =>
      cases h
      exact .inl ⟨resumeSource_outlet _, congrArg (·.2.1) (resumeSource_pace _)⟩
    | transmit pool f priority now =>
      obtain ⟨⟨_, _, _⟩, ht, rfl⟩ := ok_of_map h
      exact (transmit_paced hr ht).imp_right fun hm => ⟨now, rfl, hm⟩
    | onTimer pool now =>
      obtain ⟨⟨_, _, _⟩, ht, rfl⟩ := ok_of_map h
      exact (onTimer_paced hr ht).imp_right fun hm => ⟨now, rfl, hm⟩
    | onOutputReady pool now =>
      obtain ⟨⟨_, _⟩, ht, rfl⟩ := ok_of_map h
      exact (onOutputReady_paced hr ht).imp_right fun hm => ⟨now, rfl, hm⟩
    | onSourceReady pool now =>
      obtain ⟨⟨_, _⟩, ht, rfl⟩ := ok_of_map h
      exact (onSourceReady_paced hr ht).imp_right fun hm => ⟨now, rfl, hm⟩
    | _ =>
      cases h
      exact .inl ⟨rfl, rfl⟩

theorem answer_rate {r : Request σ} (hr : a.rate = .bytesPerSecond rate) (hp : r.isPaced = true)
    (h : a.answer r = .ok b) : b.rate = a.rate := by
  rcases answer_paced hr hp h with ⟨ho, -⟩ | ⟨_, -, -, hm⟩
  · exact congrArg (·.1) ho
  · exact hm.rate

/-- Whatever request a frame leaves at, no deadline is ahead and the gap after the frame is kept. -/
theorem departs_of_sent {r : Request σ} (hr : a.rate = .bytesPerSecond rate) (hp : r.isPaced = true)
    (h : a.answer r = .ok b) (hs : a.counters.framesSent < b.counters.framesSent) :
    ∃ now, r.time? = some now ∧ Free a now ∧ Departs a b now := by
  rcases answer_paced hr hp h with ⟨ho, -⟩ | ⟨now, ht, hf, hm⟩
  · exact absurd (congrArg (·.2.1) ho) (Nat.ne_of_gt hs)
  · refine ⟨now, ht, hf, hm.departs.resolve_left fun ho => ?_⟩
    exact absurd (congrArg (·.2.1) ho) (Nat.ne_of_gt hs)

end Requests

/-! ## Runs -/

section Runs

variable [FrameSource σ] {rs : List (Request σ)}

/-- A deadline stands until the run comes to a time that is no earlier. -/
theorem deadline_stands (hr : a.rate = .bytesPerSecond rate) (hp : ∀ r ∈ rs, r.isPaced = true)
    (h : rs.foldlM answer a = .ok b) :
    b.rate = a.rate ∧ ∀ due, a.timer.deadline = some due →
      b.timer.deadline = some due ∨ ∃ t ∈ rs.filterMap Request.time?, due ≤ t := by
  induction rs generalizing a with
  | nil =>
    cases h
    exact ⟨rfl, fun _ => .inl⟩
  | cons r rs ih =>
    rw [List.foldlM_cons] at h
    obtain ⟨c, hc, h⟩ := ok_of_bind h
    have hpr := hp r List.mem_cons_self
    have hca := answer_rate hr hpr hc
    obtain ⟨hb, hlater⟩ := ih (hca.trans hr) (fun r hr => hp r (List.mem_cons_of_mem _ hr)) h
    refine ⟨hb.trans hca, fun due hd => ?_⟩
    -- the first request either keeps the deadline or comes at a time no earlier
    rcases answer_paced hr hpr hc with ⟨-, ht⟩ | ⟨now, ht, hf, -⟩
    · refine (hlater due (ht ▸ hd)).imp_right fun ⟨t, hm, hle⟩ => ⟨t, ?_, hle⟩
      obtain ⟨r', hr', ht'⟩ := List.mem_filterMap.1 hm
      exact List.mem_filterMap.2 ⟨r', List.mem_cons_of_mem _ hr', ht'⟩
    · exact .inr ⟨now, List.mem_filterMap.2 ⟨r, List.mem_cons_self, ht⟩, hf due hd⟩

/-- Of two frames that leave at a rate, the later one keeps the gap after the earlier, unless the time
it leaves at is earlier than one that came between. -/
theorem departures_spaced {first later : Request σ} (hr : a.rate = .bytesPerSecond rate)
    (hp : ∀ r ∈ first :: later :: rs, r.isPaced = true)
    (hb : a.answer first = .ok b) (hab : a.counters.framesSent < b.counters.framesSent)
    (hc : rs.foldlM answer b = .ok c)
    (hd : c.answer later = .ok d) (hcd : c.counters.framesSent < d.counters.framesSent) :
    ∃ t₁ t₂ gap, first.time? = some t₁ ∧ later.time? = some t₂ ∧
      b.counters.framesSent = a.counters.framesSent + 1 ∧
      (RateLimit.bytesPerSecond rate).interval (b.counters.bytesSent - a.counters.bytesSent) =
        .ok (some gap) ∧
      ((∀ t ∈ rs.filterMap Request.time?, t ≤ t₂) → t₁ + gap ≤ t₂) := by
  have hpf := hp first List.mem_cons_self
  have hpl := hp later (List.mem_cons_of_mem _ List.mem_cons_self)
  have hps : ∀ r ∈ rs, r.isPaced = true := fun r hr =>
    hp r (List.mem_cons_of_mem _ (List.mem_cons_of_mem _ hr))
  obtain ⟨t₁, ht₁, -, hone, gap, hgap, hdue⟩ := departs_of_sent hr hpf hb hab
  have hbr := (answer_rate hr hpf hb).trans hr
  obtain ⟨hcr, hstands⟩ := deadline_stands hbr hps hc
  obtain ⟨t₂, ht₂, hfree, -⟩ := departs_of_sent (hcr.trans hbr) hpl hd hcd
  refine ⟨t₁, t₂, gap, ht₁, ht₂, hone, hr ▸ hgap, fun hle => ?_⟩
  -- the gap is over when the later frame leaves, or was by a time that came between
  rcases hstands _ hdue with hc | ⟨t, ht, hge⟩
  · exact hfree _ hc
  · exact Nat.le_trans hge (hle t ht)

/-! ## A byte per second -/

/-- An adapter with one channel and a queue, at a byte per second. -/
def slow : Adapter DeviceSource :=
  { (new ⟨1⟩ "wan0").addElement (.new { name := "eth1" }) with
    rate := .bytesPerSecond 1
    queue := .new (.bounded 2) }

theorem ofBytesPerSecond_one : RateLimit.ofBytesPerSecond 1 = .bytesPerSecond 1 := by
  have hlimited : ((1 : Float) < 0 || (1 : Float).isNaN) = false := by decide +kernel
  have hzero : ((1 : Float) == 0) = false := by decide +kernel
  unfold RateLimit.ofBytesPerSecond
  rw [hlimited, hzero]
  rfl

theorem slow_reachable : Reachable slow := by
  have fresh : Reachable (new ⟨1⟩ "wan0" : Adapter DeviceSource) := .new _ _
  have attached := fresh.next (.addElement (.new { name := "eth1" })) rfl
  have queueing := attached.next (.setQueueDepth (.new 4 64) (.bounded 2)) rfl
  have limited : Reachable { slow with timer := ⟨some 0⟩ } := by
    refine queueing.next (.setRateLimit 1 0) ?_
    simp only [next, setRateLimit, ofBytesPerSecond_one]
    rfl
  exact limited.next (.onTimer (.new 4 64) 0) rfl

/-- A frame handed over before the gap is past waits, and leaves as the gap ends. -/
theorem queued_frame_keeps_gap :
    ∃ (b c d : Adapter DeviceSource) (gap : Duration),
      slow.answer (.event (.transmit (.new 4 64) [7] false 0)) = .ok b ∧
      b.answer (.event (.transmit (.new 4 64) [8] false 500000000)) = .ok c ∧ c.queueLength = 1 ∧
      c.answer (.event (.onTimer (.new 4 64) 1000000000)) = .ok d ∧ d.counters.framesSent = 2 ∧
      (RateLimit.bytesPerSecond 1).interval 1 = .ok (some gap) ∧ 0 + gap ≤ 1000000000 := by
  obtain ⟨b, hb, hbs⟩ : ∃ b, slow.answer (.event (.transmit (.new 4 64) [7] false 0)) = .ok b ∧
      (b.counters.framesSent, b.counters.bytesSent) = (1, 1) := ok_of_shown (by decide +kernel)
  obtain ⟨hbf, hbn⟩ := Prod.mk.inj hbs
  obtain ⟨c, hc, hcs⟩ : ∃ c, b.answer (.event (.transmit (.new 4 64) [8] false 500000000)) = .ok c ∧
      (c.counters.framesSent, c.queueLength) = (1, 1) := answer_of_shown hb (by decide +kernel)
  obtain ⟨hcf, hcq⟩ := Prod.mk.inj hcs
  obtain ⟨d, hd, hdf⟩ : ∃ d, c.answer (.event (.onTimer (.new 4 64) 1000000000)) = .ok d ∧
      d.counters.framesSent = 2 :=
    answer_of_shown (answer_after hb hc) (by decide +kernel)
  have hrun : [Request.event (.transmit (.new 4 64) [8] false 500000000)].foldlM answer b = .ok c := by
    rw [List.foldlM_cons, hc]
    rfl
  obtain ⟨t₁, t₂, gap, ht₁, ht₂, -, hgap, hspaced⟩ :=
    departures_spaced rfl (by decide) hb (hbf ▸ Nat.zero_lt_one) hrun hd (by rw [hcf, hdf]; decide)
  cases ht₁
  cases ht₂
  rw [hbn] at hgap
  exact ⟨b, c, d, gap, hb, hc, hcq, hd, hdf, hgap, hspaced (by decide)⟩

/-- A frame of one byte leaves, a tick a second later fires the timer with nothing to send, and the
next frame is handed over at a time half a second before that tick. -/
theorem clock_set_back_outruns :
    ¬∀ (rate : Float) (a b c d : Adapter DeviceSource) (first later : Request DeviceSource)
      (rs : List (Request DeviceSource)) (t₁ t₂ : Instant) (gap : Duration),
      Reachable a → a.rate = .bytesPerSecond rate → (∀ r ∈ first :: later :: rs, r.isPaced = true) →
      a.answer first = .ok b → b.counters.framesSent = a.counters.framesSent + 1 →
      rs.foldlM answer b = .ok c → c.counters.framesSent = b.counters.framesSent →
      c.answer later = .ok d → d.counters.framesSent = c.counters.framesSent + 1 →
      first.time? = some t₁ → later.time? = some t₂ →
      (RateLimit.bytesPerSecond rate).interval (b.counters.bytesSent - a.counters.bytesSent) =
        .ok (some gap) →
      t₁ + gap ≤ t₂ := by
  intro claim
  let first : Request DeviceSource := .event (.transmit (.new 4 64) [7] false 0)
  let tick : Request DeviceSource := .event (.onTimer (.new 4 64) 1000000000)
  let later : Request DeviceSource := .event (.transmit (.new 4 64) [8] false 500000000)
  obtain ⟨b, hb, hbs⟩ : ∃ b, slow.answer first = .ok b ∧
      (b.counters.framesSent, b.counters.bytesSent) = (1, 1) := ok_of_shown (by decide +kernel)
  obtain ⟨hbf, hbn⟩ := Prod.mk.inj hbs
  obtain ⟨c, hc, hcf⟩ : ∃ c, b.answer tick = .ok c ∧ c.counters.framesSent = 1 :=
    answer_of_shown hb (by decide +kernel)
  obtain ⟨d, hd, hdf⟩ : ∃ d, c.answer later = .ok d ∧ d.counters.framesSent = 2 :=
    answer_of_shown (answer_after hb hc) (by decide +kernel)
  obtain ⟨gap, hgap, hlong⟩ : ∃ gap, (RateLimit.bytesPerSecond 1).interval 1 = .ok gap ∧
      gap = some 1000000000 := ok_of_shown (by decide +kernel)
  subst hlong
  have hrun : [tick].foldlM answer b = .ok c := by
    rw [List.foldlM_cons, hc]
    rfl
  have outrun := claim 1 slow b c d first later [tick] 0 500000000 1000000000 slow_reachable rfl
    (by decide) hb hbf hrun (hcf.trans hbf.symm) hd (hdf.trans (congrArg (· + 1) hcf.symm)) rfl rfl
    ((congrArg _ hbn).trans hgap)
  exact absurd outrun (by decide)

end Runs
end MulticastRelay.Adapter
