import MulticastRelay.Proofs.Adapter.Effects
import MulticastRelay.Proofs.Adapter.Runs

/-! # No lost wake-up

A queued frame never waits without anything left to wake its adapter: the timer runs or room is
awaited, unless transmission is suspended. The timer runs neither during a wait for room nor while
suspended.
-/
namespace MulticastRelay.Adapter

variable {σ : Type}

structure Wakeful (a : Adapter σ) : Prop where
  pending_stops_timer : a.outputPending = true → a.timer.isArmed = false
  suspended_stops_timer : a.rate.isSuspended = true → a.timer.isArmed = false
  queued_is_woken : a.queue.isEmpty = false → a.rate.isSuspended = false →
    a.timer.isArmed = true ∨ a.outputPending = true

/-- Woken whatever the queue holds, so that a frame may be queued at once. -/
structure Alert (a : Adapter σ) : Prop where
  pending_stops_timer : a.outputPending = true → a.timer.isArmed = false
  suspended_stops_timer : a.rate.isSuspended = true → a.timer.isArmed = false
  is_woken : a.rate.isSuspended = false → a.timer.isArmed = true ∨ a.outputPending = true

variable {a b : Adapter σ}

theorem Alert.wakeful (h : Alert a) : Wakeful a :=
  ⟨h.pending_stops_timer, h.suspended_stops_timer, fun _ => h.is_woken⟩

theorem Wakeful.alert (h : Wakeful a) (hq : a.queue.isEmpty = false) : Alert a :=
  ⟨h.pending_stops_timer, h.suspended_stops_timer, h.queued_is_woken hq⟩

/-- An adapter that is busy is woken in any case. -/
theorem Wakeful.alert_of_busy (h : Wakeful a) (hi : a.isIdle = false) : Alert a := by
  refine ⟨h.pending_stops_timer, h.suspended_stops_timer, fun hs => ?_⟩
  cases ht : a.timer.isArmed with
  | true => exact .inl rfl
  | false =>
    cases ho : a.outputPending with
    | true => exact .inr rfl
    | false => simp [isIdle, ht, ho, hs] at hi

theorem Alert.of_pace (h : Alert a) (hp : b.pace = a.pace) : Alert b := by
  obtain ⟨hr, ht, ho⟩ :
      b.rate = a.rate ∧ b.timer = a.timer ∧ b.outputPending = a.outputPending := by
    simpa [pace] using hp
  exact ⟨by rw [ho, ht]; exact h.1, by rw [hr, ht]; exact h.2, by rw [hr, ht, ho]; exact h.3⟩

/-- Nothing changes for the wake-up while the pace stays and the queue does not fill. -/
theorem Wakeful.of_pace (h : Wakeful a) (hp : b.pace = a.pace)
    (hq : a.queue.isEmpty = true → b.queue.isEmpty = true) : Wakeful b := by
  obtain ⟨hr, ht, ho⟩ :
      b.rate = a.rate ∧ b.timer = a.timer ∧ b.outputPending = a.outputPending := by
    simpa [pace] using hp
  refine ⟨by rw [ho, ht]; exact h.1, by rw [hr, ht]; exact h.2, ?_⟩
  rw [hr, ht, ho]
  intro hb
  refine h.3 ?_
  cases ha : a.queue.isEmpty with
  | true => rw [hq ha] at hb; cases hb
  | false => rfl

theorem wakeful_of_empty (ht : b.timer.isArmed = false) (hq : b.queue.isEmpty = true) :
    Wakeful b := by
  refine ⟨fun _ => ht, fun _ => ht, fun h => ?_⟩
  rw [hq] at h
  cases h

/-- A frame that finds no place in an empty queue leaves nothing to wake for. -/
theorem wakeful_of_same (ht : a.timer.isArmed = false) (hq : a.queue.isEmpty = true)
    (hp : b.pace = a.pace) (hk : b.queue = a.queue) : Wakeful b := by
  simp only [pace, Prod.mk.injEq] at hp
  exact wakeful_of_empty ((congrArg _ hp.2.1).trans ht) ((congrArg _ hk).trans hq)

/-! ## The helpers -/

section Helpers

variable {f : Frame} {n : Nat} {now : Instant}

theorem send_blocked_alert (h : a.send f = (.blocked, b)) : Alert b := by
  obtain ⟨ho, ht⟩ := send_waits h
  exact ⟨fun _ => by rw [ht]; rfl, fun _ => by rw [ht]; rfl, fun _ => .inr ho⟩

theorem armRetry_alert (ho : a.outputPending = false) (h : a.armRetry n now = .ok b) : Alert b := by
  obtain ⟨t, rfl, ht⟩ := armRetry_cases h
  refine ⟨fun hp => absurd hp (by simp [ho]), fun hs => ?_, fun hs => .inl ?_⟩
  · exact ht.trans (by rw [show a.rate.isSuspended = true from hs]; rfl)
  · exact ht.trans (by rw [show a.rate.isSuspended = false from hs]; rfl)

theorem scheduleNext_wakeful (ho : a.outputPending = false) (h : a.scheduleNext n now = .ok b) :
    Wakeful b := by
  obtain ⟨t, rfl, hoff, hon⟩ := scheduleNext_cases h
  refine ⟨fun hp => absurd hp (by simp [ho]), fun hs => ?_, fun hq hs => .inl (hon ?_ hs)⟩
  · cases ht : t.isArmed with
    | true => exact absurd (hoff ht) (by rw [show a.rate.isSuspended = true from hs]; simp)
    | false => rfl
  · simp [hasWork, show a.queue.isEmpty = false from hq]

theorem rescale_isArmed {t u : PacingTimer} {factor : Float} (h : t.rescale now factor = .ok u) :
    u.isArmed = t.isArmed := by
  unfold PacingTimer.rescale at h
  split at h
  · cases h; rfl
  · rename_i left hl
    obtain ⟨d, _, h⟩ := ok_of_bind h
    rw [arm_isArmed h]
    cases t with
    | mk deadline => cases deadline <;> simp_all [PacingTimer.remaining?, PacingTimer.isArmed]

/-- What a change of the rate makes of the timer. -/
theorem setRateLimit_isArmed {rate : Float} (hb : a.setRateLimit rate now = .ok b) :
    b.timer.isArmed = match RateLimit.ofBytesPerSecond rate with
      | .suspended => false
      | .bytesPerSecond _ => a.timer.isArmed || (!a.rate.isPaced && !a.outputPending)
      | .unlimited => a.timer.isArmed || (a.rate.isSuspended && !a.outputPending) := by
  unfold setRateLimit at hb
  cases hr : RateLimit.ofBytesPerSecond rate with
  | suspended =>
    rw [hr] at hb
    cases hb
    rfl
  | bytesPerSecond new =>
    rw [hr] at hb
    dsimp only at hb ⊢
    by_cases ht : a.timer.isArmed = true
    · rw [if_pos ht] at hb
      rw [ht, Bool.true_or]
      split at hb
      · obtain ⟨t, hs, rfl⟩ := ok_of_map hb
        exact (rescale_isArmed hs).trans ht
      · cases hb
        exact ht
    · rw [if_neg ht] at hb
      rw [Bool.not_eq_true] at ht
      rw [ht, Bool.false_or]
      split at hb
      · rename_i hc
        obtain ⟨t, hs, rfl⟩ := ok_of_map hb
        rw [hc]
        exact arm_isArmed hs
      · rename_i hc
        cases hb
        rw [Bool.eq_false_iff.2 hc]
        exact ht
  | unlimited =>
    rw [hr] at hb
    dsimp only at hb ⊢
    split at hb
    · rename_i hc
      obtain ⟨t, hs, rfl⟩ := ok_of_map hb
      obtain ⟨ho, hwas⟩ := Bool.and_eq_true_iff.1 hc
      rw [ho, Bool.and_true, hwas]
      exact arm_isArmed hs
    · rename_i hc
      cases hb
      cases ho : a.outputPending with
      | true => simp
      | false =>
        simp only [ho, Bool.not_false, Bool.true_and, Bool.not_eq_true] at hc
        obtain ⟨ht, hs⟩ := Bool.or_eq_false_iff.1 hc
        simp [ht, hs]

theorem setRateLimit_wakeful {rate : Float} (h : Wakeful a) (hb : a.setRateLimit rate now = .ok b) :
    Wakeful b := by
  have harmed := setRateLimit_isArmed hb
  obtain ⟨t, rfl⟩ := setRateLimit_cases hb
  generalize RateLimit.ofBytesPerSecond rate = new at harmed ⊢
  refine ⟨fun ho => ?_, fun hs => ?_, fun hq hs => ?_⟩
  · have ho : a.outputPending = true := ho
    rw [harmed, h.pending_stops_timer ho, ho]
    cases new <;> simp
  · cases new with
    | suspended => exact harmed
    | unlimited => cases hs
    | bytesPerSecond => cases hs
  · by_cases ho : a.outputPending = true
    · exact .inr ho
    · left
      -- a timer that does not run was stopped by the suspension that ends here
      have hruns : a.rate.isSuspended = false → a.timer.isArmed = true := fun hr =>
        (h.queued_is_woken hq hr).resolve_right ho
      rw [harmed, Bool.eq_false_iff.2 ho]
      cases new with
      | suspended => cases hs
      | unlimited =>
        cases hr : a.rate.isSuspended with
        | true => simp
        | false => simp [hruns hr]
      | bytesPerSecond =>
        cases hr : a.rate with
        | suspended => simp [RateLimit.isPaced]
        | unlimited => simp [RateLimit.isPaced]
        | bytesPerSecond old =>
          have hold : a.timer.isArmed = true := hruns (by rw [hr]; rfl)
          simp [hold]

variable [FrameSource σ]

theorem hold_alert (h : Alert a) (pool : Pool) (f : Frame) (priority : Bool)
    (reason : AdapterError) :
    Alert (a.hold pool f priority reason).2.1 := by
  unfold hold
  split
  · exact h.of_pace rfl
  · split
    · exact h.of_pace rfl
    · rename_i buffer rest _
      obtain ⟨c, hc, -, he⟩ := enqueue_cases a rest buffer priority
      rcases he with ⟨he, -⟩ | ⟨e, he, -⟩ <;> simp only [he] <;> exact h.of_pace hc

end Helpers

/-! ## Transmission -/

section Transmission

variable {pool rest : Pool} {now : Instant}

theorem isIdle_pending (h : a.isIdle = true) :
    a.outputPending = false ∧ a.timer.isArmed = false := by
  simp only [isIdle, Bool.and_eq_true, Bool.not_eq_true'] at h
  exact ⟨h.1.2, h.1.1⟩

theorem send_pending {f : Frame} {o : SendOutcome} (h : a.send f = (o, b)) (ho : o ≠ .blocked) :
    b.outputPending = a.outputPending := by
  have hp := send_pace h ho
  simp only [pace, Prod.mk.injEq] at hp
  exact hp.2.2

variable [FrameSource σ]

theorem transmit_wakeful {f : Frame} {priority : Bool} {r : Except AdapterError Delivery}
    (h : Wakeful a) (hb : a.transmit pool f priority now = .ok (r, b, rest)) : Wakeful b := by
  have held : ∀ {c : Adapter σ} {reason : AdapterError}, Alert c →
      c.hold pool f priority reason = (r, b, rest) → Wakeful b := by
    intro c reason hc hh
    have := hold_alert hc pool f priority reason
    rw [hh] at this
    exact this.wakeful
  cases transmit_course hb with
  | nowhere => exact h
  | sent hi _ hs ht =>
    exact scheduleNext_wakeful ((send_pending hs (by decide)).trans (isIdle_pending hi).1) ht
  | blocked hs hh => exact held (send_blocked_alert hs) hh
  | failed hi hs ht hh =>
    exact held (armRetry_alert ((send_pending hs (by decide)).trans (isIdle_pending hi).1) ht) hh
  | lost hi hq hs =>
    have hp := send_pace hs (by decide)
    simp only [pace, Prod.mk.injEq] at hp
    refine wakeful_of_empty ?_ ?_
    · exact (congrArg _ hp.2.1).trans (isIdle_pending hi).2
    · exact (congrArg _ (send_queue hs)).trans hq
  | busy hi hh =>
    -- busy, or frames wait already: in both cases the adapter is woken
    refine held ?_ hh
    cases hq : a.queue.isEmpty with
    | false => exact h.alert hq
    | true => exact h.alert_of_busy (by simpa [hq] using hi)

theorem service_wakeful (ho : a.outputPending = false) (ht : a.timer.isArmed = false)
    (hb : a.service pool now = .ok (b, rest)) : Wakeful b := by
  have pending : ∀ {c : Adapter σ}, c.pace = a.pace → c.outputPending = false := by
    intro c hp
    simp only [pace, Prod.mk.injEq] at hp
    exact hp.2.2.trans ho
  cases service_course hb with
  | suspended hr =>
    exact ⟨fun _ => rfl, fun _ => rfl,
      fun _ hs => absurd hr (by rw [show a.rate.isSuspended = false from hs]; decide)⟩
  | served _ _ hs hc =>
    exact scheduleNext_wakeful (pending ((advance_pace _ _).trans (send_pace hs (by decide)))) hc
  | retried _ _ hs hc => exact (armRetry_alert (pending (send_pace hs (by decide))) hc).wakeful
  | blocked _ _ hs => exact (send_blocked_alert hs).wakeful
  | heldBack _ hf _ => exact wakeful_of_same ht (FrameQueue.isEmpty_of_front? hf) rfl rfl
  | nothing _ hf _ hpull =>
    obtain ⟨hp, hk, -⟩ := pull_keeps hpull
    exact wakeful_of_same ht (FrameQueue.isEmpty_of_front? hf) hp hk
  | carried _ _ _ hpull hs hd =>
    have hp := (pull_keeps hpull).1
    exact scheduleNext_wakeful (pending ((send_pace hs (by decide)).trans hp)) hd
  | @kept _ c _ buffer priority left _ _ _ _ _ _ hs he =>
    obtain ⟨d, hd, -, hc⟩ := enqueue_cases c left buffer priority
    have hw := ((send_blocked_alert hs).of_pace hd).wakeful
    rcases hc with ⟨hc, -⟩ | ⟨e, hc, -⟩ <;> cases hc.symm.trans he <;> exact hw
  | @deferred _ c _ _ buffer priority left _ _ _ _ hpull hs he hg =>
    obtain ⟨d, hd, -, hc⟩ := enqueue_cases c left buffer priority
    have hp := hd.trans ((send_pace hs (by decide)).trans (pull_keeps hpull).1)
    rcases hc with ⟨hc, -⟩ | ⟨e, hc, -⟩ <;> cases hc.symm.trans he
    exact (armRetry_alert (pending hp) hg).wakeful
  | @lost _ c _ buffer priority left _ _ _ hf _ hpull hs he =>
    obtain ⟨d, hd, -, hc⟩ := enqueue_cases c left buffer priority
    obtain ⟨hpp, hpk, -⟩ := pull_keeps hpull
    have hp := hd.trans ((send_pace hs (by decide)).trans hpp)
    rcases hc with ⟨hc, -⟩ | ⟨e, hc, hk, -⟩ <;> cases hc.symm.trans he
    exact wakeful_of_same ht (FrameQueue.isEmpty_of_front? hf) hp
      (hk.trans ((send_queue hs).trans hpk))

/-! ## Being woken -/

theorem onTimer_wakeful {fired : Bool} (h : Wakeful a)
    (hb : a.onTimer pool now = .ok (fired, b, rest)) : Wakeful b := by
  unfold onTimer PacingTimer.fire at hb
  split at hb
  · cases hb
    exact h
  · rename_i timer hf
    split at hf
    · cases hf
      dsimp only at hb
      split at hb
      · rename_i ho
        cases hb
        exact ⟨fun _ => rfl, fun _ => rfl, fun _ _ => .inr ho⟩
      · rename_i ho
        obtain ⟨⟨c, left⟩, hs, hb⟩ := ok_of_bind hb
        cases hb
        exact service_wakeful (by simpa using ho) rfl hs
    · cases hf

theorem onOutputReady_wakeful (h : Wakeful a) (hb : a.onOutputReady pool now = .ok (b, rest)) :
    Wakeful b := by
  unfold onOutputReady at hb
  split at hb
  · cases hb
    exact h
  · rename_i ho
    have hp : a.outputPending = true := by simpa using ho
    have ht := h.pending_stops_timer hp
    dsimp only at hb
    split at hb
    · refine service_wakeful ?_ ?_ hb
      · rfl
      · exact ht
    · rename_i hc
      cases hb
      -- with the timer stopped, only suspension keeps the adapter from going on
      refine ⟨fun _ => ht, fun _ => ht, fun _ hs => ?_⟩
      exact absurd (show (!a.rate.isSuspended && !a.timer.isArmed) = true by
        rw [show a.rate.isSuspended = false from hs, ht]; rfl) hc

theorem onSourceReady_wakeful (h : Wakeful a) (hb : a.onSourceReady pool now = .ok (b, rest)) :
    Wakeful b := by
  unfold onSourceReady at hb
  split at hb
  · rename_i hi
    obtain ⟨ho, ht⟩ := isIdle_pending hi
    exact service_wakeful ho ht hb
  · cases hb
    exact h

end Transmission

/-! ## Runs -/

section Runs

theorem orSame_wakeful (h : Wakeful a) {r : Except AdapterError (Adapter σ)}
    (hr : ∀ c, r = .ok c → c.pace = a.pace ∧ c.queue = a.queue) : Wakeful (a.orSame r) := by
  cases r with
  | error e => exact h
  | ok c =>
    obtain ⟨hp, hq⟩ := hr c rfl
    exact h.of_pace hp fun he => (congrArg _ hq).trans he

theorem modifyElement_keeps {name : String} {f : Element → Element}
    (h : a.modifyElement name f = .ok b) : b.pace = a.pace ∧ b.queue = a.queue := by
  unfold modifyElement at h
  split at h
  · cases h; exact ⟨rfl, rfl⟩
  · cases h

theorem removeElement_keeps {name : String} {e : Element} (h : a.removeElement name = .ok (e, b)) :
    b.pace = a.pace ∧ b.queue = a.queue := by
  unfold removeElement at h
  split at h
  · cases h; exact ⟨rfl, rfl⟩
  · cases h

variable [FrameSource σ]

theorem setQueueDepth_wakeful (h : Wakeful a) (pool : Pool) (depth : QueueDepth) :
    Wakeful (a.setQueueDepth pool depth).1 := by
  refine h.of_pace (by simp [setQueueDepth]; rfl) fun hq => ?_
  cases hd : depth.isEnabled <;>
    simp_all [setQueueDepth, FrameQueue.setDepth, FrameQueue.clear, FrameQueue.isEmpty]

theorem next_preserves_wakeful (h : Wakeful a) (e : Event σ) (hb : a.next e = .ok b) :
    Wakeful b := by
  cases e with
  | removeElement name =>
    cases hb
    refine orSame_wakeful h fun c hc => ?_
    obtain ⟨⟨e, d⟩, hd, rfl⟩ := ok_of_map hc
    exact removeElement_keeps hd
  | setElementTx name on =>
    cases hb
    exact orSame_wakeful h fun c hc => modifyElement_keeps hc
  | setElementRx name on =>
    cases hb
    exact orSame_wakeful h fun c hc => modifyElement_keeps hc
  | setRateLimit rate now => exact setRateLimit_wakeful h hb
  | setQueueDepth pool depth =>
    cases hb
    exact setQueueDepth_wakeful h pool depth
  | send f =>
    cases hb
    cases hs : a.send f with
    | mk o c =>
      cases o with
      | blocked => exact (send_blocked_alert hs).wakeful
      | accepted | failed =>
        exact h.of_pace (send_pace hs (by decide)) fun hq => (congrArg _ (send_queue hs)).trans hq
  | transmit pool f priority now =>
    obtain ⟨⟨r, c, rest⟩, hc, rfl⟩ := ok_of_map hb
    exact transmit_wakeful h hc
  | onTimer pool now =>
    obtain ⟨⟨r, c, rest⟩, hc, rfl⟩ := ok_of_map hb
    exact onTimer_wakeful h hc
  | onOutputReady pool now =>
    obtain ⟨⟨c, rest⟩, hc, rfl⟩ := ok_of_map hb
    exact onOutputReady_wakeful h hc
  | onSourceReady pool now =>
    obtain ⟨⟨c, rest⟩, hc, rfl⟩ := ok_of_map hb
    exact onSourceReady_wakeful h hc
  | close pool =>
    cases hb
    exact wakeful_of_empty rfl rfl
  | addElement | setPolicy | bindVif | unbindVif | setShadow | bindSource | unbindSource
  | channels | producer =>
    cases hb
    exact h.of_pace rfl id

/-- In every run a queued frame has something left to wake its adapter, and timer, wait for room and
suspension never overlap. -/
theorem reachable_wakeful (h : Reachable a) : Wakeful a := by
  induction h with
  | new owner name => exact wakeful_of_empty rfl rfl
  | next e _ hb ih => exact next_preserves_wakeful ih e hb

end Runs

/-- A frame that failed once and then met a full channel waits in the queue, for room alone. -/
theorem retried_frame_awaits_room : ∃ a : Adapter DeviceSource, Reachable a ∧ a.queueLength = 1 ∧
    a.outputPending = true ∧ Wakeful a := by
  have fresh : Reachable (new ⟨1⟩ "wan0" : Adapter DeviceSource) := .new _ _
  have attached := fresh.next (.addElement (.new { name := "eth1", script := [.fail, .block] })) rfl
  have queueing := attached.next (.setQueueDepth (.new 4 64) (.bounded 2)) rfl
  have failed := queueing.next (.transmit (.new 4 64) [1, 2, 3] false 0) rfl
  have blocked := failed.next (.onTimer (.new 4 64) RateLimit.failureDelay) rfl
  exact ⟨_, blocked, rfl, rfl, reachable_wakeful blocked⟩

end MulticastRelay.Adapter
