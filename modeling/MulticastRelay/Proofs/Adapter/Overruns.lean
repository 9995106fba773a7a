import MulticastRelay.Proofs.Adapter.Histories
import MulticastRelay.Proofs.Adapter.Keeping
import MulticastRelay.Proofs.Time.Delays

/-! # Delays that no clock has

An adapter sets its timer by the rate and the length of the frame that left or failed, and scales what
is left of a wait as the rate changes. Neither delay is bounded. Which requests are lost over this is
told here from the request and the adapter that it meets, and with it which histories are.
-/
namespace MulticastRelay.Adapter

variable {σ : Type} {a b : Adapter σ} {n : ℕ} {now : Instant} {pool : Pool}

/-! ## Setting the timer -/

/-- The gap after a frame of so many octets is no duration. -/
def Overlong (a : Adapter σ) (n : ℕ) : Prop :=
  ∃ rate, a.rate = .bytesPerSecond rate ∧ RateLimit.TooSlow rate n

theorem overlong_congr (h : b.rate = a.rate) : b.Overlong n ↔ a.Overlong n := by
  unfold Overlong
  rw [h]

theorem armAfter_ne_duration (a : Adapter σ) (now : Instant) (delay : Option Duration) :
    a.armAfter now delay ≠ .error .duration := by
  cases delay with
  | some d => exact fun h => PacingTimer.arm_ne_duration now d (map_eq_error_iff.1 h)
  | none => exact nofun

/-- A delay that was worked out sets the timer. -/
theorem armAfter_bind_error_iff {delay : Except ClockFault (Option Duration)} :
    (delay >>= fun d => a.armAfter now d) = .error .duration ↔ delay = .error .duration := by
  rw [bind_eq_error_iff]
  constructor
  · rintro (h | ⟨d, -, h⟩)
    · exact h
    · exact absurd h (armAfter_ne_duration a now d)
  · exact .inl

theorem interval_error_iff_overlong (h : a.rate.Proper) :
    a.rate.interval n = .error .duration ↔ a.Overlong n := by
  unfold Overlong
  cases hr : a.rate with
  | unlimited => exact ⟨nofun, by rintro ⟨_, hc, -⟩; cases hc⟩
  | suspended => exact ⟨nofun, by rintro ⟨_, hc, -⟩; cases hc⟩
  | bytesPerSecond rate =>
    rw [hr] at h
    rw [RateLimit.interval_error_iff h]
    constructor
    · exact fun hslow => ⟨rate, rfl, hslow⟩
    · rintro ⟨_, hc, hslow⟩
      cases hc
      exact hslow

theorem scheduleNext_error_iff (h : a.rate.Proper) :
    a.scheduleNext n now = .error .duration ↔ a.Overlong n := by
  rw [← interval_error_iff_overlong h]
  unfold scheduleNext
  split
  · exact armAfter_bind_error_iff
  · rename_i hr
    rw [hr]
    exact iff_of_false (armAfter_ne_duration a now _) nofun
  · rename_i hr
    rw [hr]
    exact iff_of_false (armAfter_ne_duration a now _) nofun

/-- Without pacing the delay of another attempt is fixed. -/
theorem armRetry_error_iff (h : a.rate.Proper) :
    a.armRetry n now = .error .duration ↔ a.Overlong n := by
  rw [← interval_error_iff_overlong h, armRetry, armAfter_bind_error_iff]
  cases a.rate with
  | unlimited => exact ⟨nofun, nofun⟩
  | suspended => exact Iff.rfl
  | bytesPerSecond rate => exact Iff.rfl

theorem scheduled_error_iff {β : Type} {f : Adapter σ → β} (h : a.rate.Proper)
    (hb : b.rate = a.rate) :
    (do return f (← b.scheduleNext n now) : Except ClockFault β) = .error .duration ↔
      a.Overlong n := by
  have hproper : b.rate.Proper := hb ▸ h
  rw [← overlong_congr hb, ← scheduleNext_error_iff hproper]
  exact map_eq_error_iff (f := f)

theorem retried_error_iff {β : Type} {f : Adapter σ → β} (h : a.rate.Proper)
    (hb : b.rate = a.rate) :
    (do return f (← b.armRetry n now) : Except ClockFault β) = .error .duration ↔
      a.Overlong n := by
  have hproper : b.rate.Proper := hb ▸ h
  rw [← overlong_congr hb, ← armRetry_error_iff hproper]
  exact map_eq_error_iff (f := f)

/-! ## The frame the next gap is measured by -/

theorem send_rate {f : Frame} {o : SendOutcome} (h : a.send f = (o, b)) (ho : o ≠ .blocked) :
    b.rate = a.rate := congrArg (·.1) (send_pace h ho)

variable [FrameSource σ]

/-- A frame from the source leaves, or it fails and is queued. -/
def Carries (a : Adapter σ) (pool : Pool) (buffer : Buffer) (p : Bool) : Prop :=
  (a.send buffer.octets).1 = .accepted ∨
    ∃ c, a.send buffer.octets = (.failed, c) ∧ (c.enqueue pool buffer p).1 = .ok ()

/-- Serving the adapter sets the timer by a frame of so many octets: one at the head of the queue
that leaves or fails, or else one that the source yields. -/
inductive Serves (a : Adapter σ) (pool : Pool) : ℕ → Prop where
  | queued {front : Buffer} : a.queue.front? = some front →
      (a.send front.octets).1 ≠ .blocked → Serves a pool front.length
  | pulled {b : Adapter σ} {buffer : Buffer} {p : Bool} {left : Pool} : a.queue.front? = none →
      a.sourceSuspended = false → a.pull pool = (some (buffer, p), b, left) →
      b.Carries left buffer p → Serves a pool buffer.length

theorem serves_iff_of_front {front : Buffer} (hf : a.queue.front? = some front) :
    Serves a pool n ↔ n = front.length ∧ (a.send front.octets).1 ≠ .blocked := by
  constructor
  · intro h
    cases h with
    | queued hf' hs =>
      cases hf.symm.trans hf'
      exact ⟨rfl, hs⟩
    | pulled hf' => cases hf.symm.trans hf'
  · rintro ⟨rfl, hs⟩
    exact .queued hf hs

theorem Serves.pulls (h : Serves a pool n) (hf : a.queue.front? = none) :
    a.sourceSuspended = false ∧ ∃ r b left, a.pull pool = (some r, b, left) := by
  cases h with
  | queued hf' => cases hf.symm.trans hf'
  | pulled _ hs hp => exact ⟨hs, _, _, _, hp⟩

theorem serves_iff_of_pull {buffer : Buffer} {p : Bool} {left : Pool}
    (hf : a.queue.front? = none) (hs : a.sourceSuspended = false)
    (hp : a.pull pool = (some (buffer, p), b, left)) :
    Serves a pool n ↔ n = buffer.length ∧ b.Carries left buffer p := by
  constructor
  · intro h
    cases h with
    | queued hf' => cases hf.symm.trans hf'
    | pulled _ _ hp' hc =>
      cases hp.symm.trans hp'
      exact ⟨rfl, hc⟩
  · rintro ⟨rfl, hc⟩
    exact .pulled hf hs hp hc

theorem serveQueue_error_iff (h : a.rate.Proper) (front : Buffer) :
    a.serveQueue pool front now = .error .duration ↔
      (a.send front.octets).1 ≠ .blocked ∧ a.Overlong front.length := by
  unfold serveQueue
  rcases hs : a.send front.octets with ⟨outcome, b⟩
  cases outcome with
  | accepted =>
    have hrate : (b.advance pool).1.rate = a.rate :=
      (congrArg (·.1) (advance_pace b pool)).trans (send_rate hs nofun)
    rw [and_iff_right nofun]
    exact scheduled_error_iff h hrate
  | failed =>
    have hrate : b.rate = a.rate := send_rate hs nofun
    rw [and_iff_right nofun]
    exact retried_error_iff h hrate
  | blocked => exact ⟨nofun, fun hb => absurd rfl hb.1⟩

theorem servePulled_error_iff (h : a.rate.Proper) (buffer : Buffer) (p : Bool) :
    a.servePulled pool buffer p now = .error .duration ↔
      a.Carries pool buffer p ∧ a.Overlong buffer.length := by
  unfold servePulled Carries
  rcases hs : a.send buffer.octets with ⟨outcome, b⟩
  cases outcome with
  | accepted =>
    rw [and_iff_right (.inl rfl)]
    exact scheduled_error_iff h (send_rate hs nofun)
  | blocked =>
    refine iff_of_false nofun ?_
    rintro ⟨hb | ⟨c, hc, -⟩, -⟩
    · cases hb
    · cases hc
  | failed =>
    have hrate : b.rate = a.rate := send_rate hs nofun
    dsimp only
    rcases he : b.enqueue pool buffer p with ⟨result, c, left⟩
    cases result with
    | ok u =>
      have hkept : (b.enqueue pool buffer p).1 = .ok () := congrArg (·.1) he
      rw [and_iff_right (.inr ⟨b, rfl, hkept⟩)]
      exact retried_error_iff h ((congrArg (·.1) (enqueue_keeps he).1).trans hrate)
    | error e =>
      refine iff_of_false nofun ?_
      rintro ⟨hb | ⟨c, hc, hkept⟩, -⟩
      · cases hb
      · cases hc
        rw [he] at hkept
        cases hkept

theorem service_error_iff (h : a.rate.Proper) :
    a.service pool now = .error .duration ↔ ∃ n, Serves a pool n ∧ a.Overlong n := by
  unfold service
  split
  · rename_i hr
    refine iff_of_false nofun ?_
    rintro ⟨n, -, rate, hpaced, -⟩
    rw [hpaced] at hr
    cases hr
  · split
    · rename_i front hf
      simp only [serves_iff_of_front hf, and_assoc, exists_eq_left]
      exact serveQueue_error_iff h front
    · rename_i hf
      split
      · rename_i hs
        refine iff_of_false nofun ?_
        rintro ⟨n, hserves, -⟩
        cases hs.symm.trans (hserves.pulls hf).1
      · rename_i hs
        rw [Bool.not_eq_true] at hs
        split
        · rename_i buffer p b left hp
          have hrate : b.rate = a.rate := congrArg (·.1) (pull_keeps hp).1
          have hproper : b.rate.Proper := hrate ▸ h
          simp only [serves_iff_of_pull hf hs hp, and_assoc, exists_eq_left, ← overlong_congr hrate]
          exact servePulled_error_iff hproper buffer p
        · rename_i hp
          refine iff_of_false nofun ?_
          rintro ⟨n, hserves, -⟩
          obtain ⟨-, r, b, left, hp'⟩ := hserves.pulls hf
          cases hp.symm.trans hp'

/-! ## Requests -/

/-- The adapter answers a request by setting the timer by a frame of so many octets: the one handed
to it that left, or that failed and waits in a queue, or the one it serves as its timer fires, as
there is room again or as its source has input. -/
def Paces (a : Adapter σ) : Request σ → ℕ → Prop
  | .event (.transmit _ f _ _), n =>
    n = f.length ∧ a.elements.isEmpty = false ∧ a.isIdle = true ∧ a.queue.isEmpty = true ∧
      ((a.send f).1 = .accepted ∨ (a.send f).1 = .failed ∧ a.queue.depth.isEnabled = true)
  | .event (.onTimer pool now), n =>
    a.timer.isDue now = true ∧ a.outputPending = false ∧ Serves { a with timer := .idle } pool n
  | .event (.onOutputReady pool _), n =>
    a.outputPending = true ∧ a.timer.isArmed = false ∧ Serves a.endWait pool n
  | .event (.onSourceReady pool _), n => a.isIdle = true ∧ Serves a pool n
  | _, _ => False

/-- What is left of a wait is no duration once it is scaled to a new rate. -/
def Stretches (a : Adapter σ) : Request σ → Prop
  | .event (.setRateLimit rate now) => ∃ previous new left,
    a.rate = .bytesPerSecond previous ∧ RateLimit.ofBytesPerSecond rate = .bytesPerSecond new ∧
      a.timer.remaining? now = some left ∧ PacingTimer.TooStretched left previous new
  | _ => False

/-- A request has the adapter take something for a delay that is no duration. -/
def Overruns (a : Adapter σ) (r : Request σ) : Prop :=
  (∃ n, Paces a r n ∧ a.Overlong n) ∨ Stretches a r

theorem transmit_error_iff {f : Frame} {p : Bool} (h : a.rate.Proper) :
    a.transmit pool f p now = .error .duration ↔
      ∃ n, Paces a (.event (.transmit pool f p now)) n ∧ a.Overlong n := by
  simp only [Paces, and_assoc, exists_eq_left]
  unfold transmit
  split
  · rename_i he
    exact iff_of_false nofun fun hp => Bool.noConfusion (hp.1.symm.trans he)
  · rename_i he
    rw [Bool.not_eq_true] at he
    rw [and_iff_right he]
    split
    · rename_i hi
      obtain ⟨hi, hq⟩ := Bool.and_eq_true_iff.1 hi
      rw [and_iff_right hi, and_iff_right hq]
      rcases hs : a.send f with ⟨outcome, b⟩
      cases outcome with
      | accepted =>
        rw [and_iff_right (.inl rfl)]
        exact scheduled_error_iff h (send_rate hs nofun)
      | blocked =>
        refine iff_of_false nofun ?_
        rintro ⟨hb | ⟨hb, -⟩, -⟩ <;> cases hb
      | failed =>
        have hrate : b.rate = a.rate := send_rate hs nofun
        have hdepth : b.queue.depth = a.queue.depth := congrArg _ (send_queue hs)
        dsimp only
        rw [hdepth]
        split
        · rename_i hd
          rw [and_iff_right (.inr ⟨rfl, hd⟩)]
          exact retried_error_iff h hrate
        · rename_i hd
          refine iff_of_false nofun ?_
          rintro ⟨hb | ⟨-, hd'⟩, -⟩
          · cases hb
          · exact hd hd'
    · rename_i hi
      exact iff_of_false nofun fun hp => hi (Bool.and_eq_true_iff.2 ⟨hp.1, hp.2.1⟩)

theorem onTimer_error_iff (h : a.rate.Proper) :
    a.onTimer pool now = .error .duration ↔
      ∃ n, Paces a (.event (.onTimer pool now)) n ∧ a.Overlong n := by
  have hidle : ({ a with timer := .idle } : Adapter σ).rate.Proper := h
  simp only [Paces, and_assoc, exists_and_left]
  unfold onTimer PacingTimer.fire
  by_cases hdue : a.timer.isDue now = true
  · rw [if_pos hdue, and_iff_right hdue]
    dsimp only
    cases ho : a.outputPending with
    | true => exact iff_of_false nofun fun hp => Bool.noConfusion hp.1
    | false =>
      rw [if_neg Bool.false_ne_true, and_iff_right rfl]
      exact (map_eq_error_iff (f := fun r => (true, r))).trans (service_error_iff hidle)
  · rw [if_neg hdue]
    exact iff_of_false nofun fun hp => hdue hp.1

theorem onOutputReady_error_iff (h : a.rate.Proper) :
    a.onOutputReady pool now = .error .duration ↔
      ∃ n, Paces a (.event (.onOutputReady pool now)) n ∧ a.Overlong n := by
  have hend : a.endWait.rate.Proper := h
  simp only [Paces, and_assoc, exists_and_left]
  unfold onOutputReady
  cases ho : a.outputPending with
  | false => exact iff_of_false nofun fun hp => Bool.noConfusion hp.1
  | true =>
    rw [and_iff_right rfl]
    show (if (!a.rate.isSuspended && !a.timer.isArmed) = true then a.endWait.service pool now
      else .ok (a.endWait, pool)) = .error .duration ↔ _
    split
    · rename_i hc
      obtain ⟨-, ht⟩ := Bool.and_eq_true_iff.1 hc
      rw [and_iff_right (by simpa using ht)]
      exact service_error_iff hend
    · rename_i hc
      refine iff_of_false nofun ?_
      rintro ⟨ht, n, -, rate, hpaced, -⟩
      rw [hpaced, ht] at hc
      exact hc rfl

theorem onSourceReady_error_iff (h : a.rate.Proper) :
    a.onSourceReady pool now = .error .duration ↔
      ∃ n, Paces a (.event (.onSourceReady pool now)) n ∧ a.Overlong n := by
  simp only [Paces, and_assoc, exists_and_left]
  unfold onSourceReady
  by_cases hi : a.isIdle = true
  · rw [if_pos hi, and_iff_right hi]
    exact service_error_iff h
  · rw [if_neg hi]
    exact iff_of_false nofun fun hp => hi hp.1

omit [FrameSource σ] in
theorem setRateLimit_error_iff {rate : Float} (h : a.rate.Proper) :
    a.setRateLimit rate now = .error .duration ↔
      Stretches a (.event (.setRateLimit rate now)) := by
  have hnow : ∀ f : PacingTimer → Adapter σ, (PacingTimer.arm now 0).map f ≠ .error .duration :=
    fun f hf => PacingTimer.arm_ne_duration now 0 (map_eq_error_iff.1 hf)
  have hproper := RateLimit.ofBytesPerSecond_proper rate
  unfold setRateLimit Stretches
  dsimp only
  cases hr : RateLimit.ofBytesPerSecond rate with
  | suspended =>
    refine iff_of_false (ok_ne_error _ _) ?_
    rintro ⟨_, _, _, -, hc, -⟩
    cases hc
  | unlimited =>
    dsimp only
    refine iff_of_false ?_ ?_
    · split
      · exact hnow _
      · exact ok_ne_error _ _
    · rintro ⟨_, _, _, -, hc, -⟩
      cases hc
  | bytesPerSecond new =>
    rw [hr] at hproper
    dsimp only
    cases ht : a.timer.isArmed with
    | false =>
      have hdeadline : a.timer.deadline = none :=
        Option.not_isSome_iff_eq_none.1 (ne_true_of_eq_false ht)
      have hstill : a.timer.remaining? now = none := by
        rw [PacingTimer.remaining?, hdeadline, Option.map_none]
      refine iff_of_false ?_ ?_
      · rw [if_neg Bool.false_ne_true]
        split
        · exact hnow _
        · exact ok_ne_error _ _
      · rintro ⟨_, _, left, -, -, hleft, -⟩
        cases hstill.symm.trans hleft
    | true =>
      rw [if_pos rfl]
      cases hprevious : a.rate with
      | bytesPerSecond previous =>
        rw [hprevious] at h
        dsimp only
        rw [map_eq_error_iff, PacingTimer.rescale_error_iff h hproper]
        constructor
        · rintro ⟨left, hleft, hlong⟩
          exact ⟨previous, new, left, rfl, rfl, hleft, hlong⟩
        · rintro ⟨_, _, left, hp, hn, hleft, hlong⟩
          cases hp
          cases hn
          exact ⟨left, hleft, hlong⟩
      | _ =>
        refine iff_of_false (ok_ne_error _ _) ?_
        rintro ⟨_, _, _, hc, -⟩
        cases hc

/-- A request ends in a delay that is no duration exactly if it overruns. -/
theorem answer_error_iff {r : Request σ} (h : a.rate.Proper) :
    a.answer r = .error .duration ↔ Overruns a r := by
  have hnone : ∀ {r : Request σ}, (∀ n, ¬Paces a r n) → ¬Stretches a r → ¬Overruns a r := by
    rintro r hp hs (⟨n, hn, -⟩ | hr)
    · exact hp n hn
    · exact hs hr
  have hpaced : ∀ {r : Request σ}, ¬Stretches a r →
      (Overruns a r ↔ ∃ n, Paces a r n ∧ a.Overlong n) := fun hs => or_iff_left hs
  cases r with
  | enqueue => exact iff_of_false nofun (hnone (fun _ => id) id)
  | elements => exact iff_of_false nofun (hnone (fun _ => id) id)
  | event e =>
    cases e with
    | setRateLimit rate now =>
      refine (setRateLimit_error_iff h).trans (or_iff_right ?_).symm
      rintro ⟨n, hn, -⟩
      exact hn
    | transmit pool f p now =>
      exact map_eq_error_iff.trans ((transmit_error_iff h).trans (hpaced id).symm)
    | onTimer pool now =>
      exact map_eq_error_iff.trans ((onTimer_error_iff h).trans (hpaced id).symm)
    | onOutputReady pool now =>
      exact map_eq_error_iff.trans ((onOutputReady_error_iff h).trans (hpaced id).symm)
    | onSourceReady pool now =>
      exact map_eq_error_iff.trans ((onSourceReady_error_iff h).trans (hpaced id).symm)
    | _ => exact iff_of_false nofun (hnone (fun _ => id) id)

/-! ## Histories -/

theorem paceInvariant_proper : PaceInvariant fun p => p.1.Proper where
  wait := id
  clear := id
  rest := id
  set _ := id

/-- Every limit that an adapter has came from a configured rate. -/
theorem answer_proper {r : Request σ} (h : a.rate.Proper) (hb : a.answer r = .ok b) :
    b.rate.Proper := by
  cases hr : r.setsRate with
  | false => exact paceInvariant_proper.answer hr h hb
  | true =>
    cases r with
    | enqueue => cases hr
    | elements => cases hr
    | event e =>
      cases e with
      | setRateLimit rate now =>
        obtain ⟨t, rfl⟩ := setRateLimit_cases hb
        exact RateLimit.ofBytesPerSecond_proper rate
      | _ => cases hr

/-- A history is lost over a delay that is no duration exactly if one of its requests, each of which
was answered up to there, overruns. -/
theorem history_overruns_iff (owner : InterfaceId) (name : String) (rs : List (Request σ)) :
    after owner name rs = .error .duration ↔ ∃ past r later a,
      rs = past ++ r :: later ∧ after owner name past = .ok a ∧ Overruns a r := by
  have hproper : ∀ {past : List (Request σ)} {a : Adapter σ},
      after owner name past = .ok a → a.rate.Proper :=
    after_keeps (P := fun a => a.rate.Proper) trivial answer_proper
  unfold after
  rw [foldlM_eq_error_iff]
  constructor
  · rintro ⟨past, r, later, a, rfl, ha, hr⟩
    exact ⟨past, r, later, a, rfl, ha, (answer_error_iff (hproper ha)).1 hr⟩
  · rintro ⟨past, r, later, a, rfl, ha, hr⟩
    exact ⟨past, r, later, a, rfl, ha, (answer_error_iff (hproper ha)).2 hr⟩

/-- An adapter with one channel is limited to a rate, its timer fires, and a frame of sixty-four octets
leaves. -/
def crawl : List (Request DeviceSource) :=
  [.event (.addElement (.new { name := "eth1" })), .event (.setRateLimit 1e-18 0),
    .event (.onTimer (.new 4 64) 0),
    .event (.transmit (.new 4 64) (List.replicate 64 0) false 0)]

/-- A limit without bound is lowered while the timer that it set has yet to fire. -/
def sprint : List (Request DeviceSource) :=
  [.event (.setRateLimit (1 / 0) 0), .event (.setRateLimit 1000 0)]

theorem configured_rates_overrun : ∀ rs ∈ [crawl, sprint],
    after ⟨1⟩ "wan0" rs = .error .duration ∧ ∃ past r later a,
      rs = past ++ r :: later ∧ after ⟨1⟩ "wan0" past = .ok a ∧ Overruns a r := by
  have hfails : ∀ rs ∈ [crawl, sprint],
      ((after ⟨1⟩ "wan0" rs).map fun _ => ()) = .error .duration := by decide +kernel
  intro rs hrs
  have hlost : after ⟨1⟩ "wan0" rs = .error .duration := map_eq_error_iff.1 (hfails rs hrs)
  exact ⟨hlost, (history_overruns_iff ⟨1⟩ "wan0" rs).1 hlost⟩

end MulticastRelay.Adapter
