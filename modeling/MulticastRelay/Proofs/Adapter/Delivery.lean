import MulticastRelay.Proofs.Adapter.Effects
import MulticastRelay.Proofs.Adapter.Ledger
import MulticastRelay.Proofs.Adapter.Runs

/-! # In order and exactly once

What a step of an adapter does to the frames it took is read off the outcomes of the sends, pushes
and pulls that the step makes. A ledger that notes it accounts for every frame in every run in which
frames are only transmitted or pulled.
-/
namespace MulticastRelay.Adapter

variable {σ : Type}

/-- A send that bypasses queue and pacing. -/
def Event.isDirectSend : Event σ → Bool
  | .send _ => true
  | _ => false

def carrier (a : Adapter σ) : Carrier := ⟨a.composite, a.sourceOverride⟩

/-- The ledger accounts for the queue of the adapter and the logs of its elements. -/
def Accounted (a : Adapter σ) (l : Ledger) : Prop :=
  l.Accounts (a.queue.priority.map Buffer.octets) (a.queue.ordinary.map Buffer.octets)
    a.composite.logs

/-! ## What a step does -/

section Happenings

variable [FrameSource σ]

def transmitted (a : Adapter σ) (pool : Pool) (f : Frame) (priority : Bool) (now : Instant) :
    List Happening :=
  match a.transmit pool f priority now with
  | .ok (.ok .sent, _) => [.carried f priority a.carrier]
  | .ok (.ok .queued, _) => [.queued f priority]
  | _ => []

/-- A pulled frame is taken if it is queued. -/
def held (a : Adapter σ) (pool : Pool) (buffer : Buffer) (priority : Bool) : List Happening :=
  match a.enqueue pool buffer priority with
  | (.ok _, _) => [.queued buffer.octets priority]
  | (.error _, _) => []

def refilled (a : Adapter σ) (pool : Pool) : List Happening :=
  if a.sourceSuspended || !a.queue.depth.isEnabled || a.queue.isFull then []
  else match a.pull pool with
    | (some (buffer, priority), a, pool) => a.held pool buffer priority
    | (none, _) => []

def advanced (a : Adapter σ) (pool : Pool) : List Happening :=
  match a.queue.pop? with
  | some (buffer, queue) => { a with queue }.resumeSource.refilled (pool.put buffer)
  | none => a.resumeSource.refilled pool

def serviced (a : Adapter σ) (pool : Pool) : List Happening :=
  if a.rate.isSuspended then []
  else match a.queue.front? with
    | some front =>
      match a.send front.octets with
      | (.accepted, b) => .served a.carrier :: b.advanced pool
      | (_, _) => []
    | none =>
      if a.sourceSuspended then []
      else match a.pull pool with
        | (some (buffer, priority), b, pool) =>
          match b.send buffer.octets with
          | (.accepted, _) => [.carried buffer.octets priority b.carrier]
          | (_, c) => c.held pool buffer priority
        | (none, _) => []

def happenings (a : Adapter σ) : Event σ → List Happening
  | .addElement e => [.attached e.sent]
  | .removeElement name => ((a.elements.findIdx? (·.name == name)).map .detached).toList
  | .setQueueDepth _ depth => if depth.isEnabled then [] else [.emptied]
  | .transmit pool f priority now => a.transmitted pool f priority now
  | .onTimer pool now =>
    match a.timer.fire now with
    | (true, timer) => if a.outputPending then [] else { a with timer }.serviced pool
    | (false, _) => []
  | .onOutputReady pool _ =>
    if a.outputPending && !a.rate.isSuspended && !a.timer.isArmed then
      ({ a with outputPending := false }.mapElements Element.stopOutput).serviced pool
    else []
  | .onSourceReady pool _ => if a.isIdle then a.serviced pool else []
  | .close _ => [.emptied]
  | _ => []

/-- An adapter with the ledger of its run so far, in which nothing was sent directly. -/
inductive Recorded : Adapter σ → Ledger → Prop where
  | new (owner : InterfaceId) (name : String) : Recorded (new owner name) {}
  | next {a b : Adapter σ} {l : Ledger} (e : Event σ) : Recorded a l → e.isDirectSend = false →
      a.next e = .ok b → Recorded b (l.noteAll (a.happenings e))

end Happenings

variable {a b : Adapter σ} {l : Ledger} {f : Frame} {pool rest : Pool} {now : Instant}

theorem Accounted.congr (h : Accounted a l) (hp : b.queue.priority = a.queue.priority)
    (ho : b.queue.ordinary = a.queue.ordinary) (hc : b.composite.logs = a.composite.logs) :
    Accounted b l := by
  unfold Accounted
  rw [hp, ho, hc]
  exact h

theorem Accounted.of_same (h : Accounted a l) (hq : b.queue = a.queue)
    (hc : b.composite = a.composite) : Accounted b l :=
  h.congr (by rw [hq]) (by rw [hq]) (by rw [hc])

theorem Accounted.timed (h : Accounted a l) (t : PacingTimer) :
    Accounted { a with timer := t } l := h

/-! ## Sending -/

section Sending

theorem noteOutcome_logs (a : Adapter σ) (o : SendOutcome) (n : Nat) :
    (a.noteOutcome o n).composite.logs = a.composite.logs := by
  cases o with
  | accepted => rfl
  | blocked => exact Composite.map_logs (fun e => by split <;> simp) a.composite
  | failed => rfl

theorem send_logs {o : SendOutcome} (h : a.send f = (o, b)) :
    b.composite.logs = (a.carrier.send f).2.logs := by
  rw [send_eq h]
  exact noteOutcome_logs _ o f.length

theorem carrier_outcome {o : SendOutcome} (h : a.send f = (o, b)) : (a.carrier.send f).1 = o :=
  send_outcome h

theorem Accounted.send_refused {o : SendOutcome} (h : Accounted a l) (hs : a.send f = (o, b))
    (ho : o ≠ .accepted) : Accounted b l := by
  have hq := send_queue hs
  have hr : (a.carrier.send f).1 ≠ .accepted := by rwa [carrier_outcome hs]
  exact h.congr (by rw [hq]) (by rw [hq])
    ((send_logs hs).trans (Composite.send_logs_of_refused hr))

theorem Accounted.carried (h : Accounted a l) (hq : a.queue.isEmpty = true)
    (hs : a.send f = (.accepted, b)) (p : Bool) :
    Accounted b (l.note (.carried f p a.carrier)) := by
  obtain ⟨hp, hr⟩ : a.queue.priority = [] ∧ a.queue.ordinary = [] := by
    simpa [FrameQueue.isEmpty] using hq
  have hb := send_queue hs
  unfold Accounted at h ⊢
  rw [hp, hr] at h
  rw [hb, hp, hr, send_logs hs]
  exact Ledger.Accounts.carried h (carrier_outcome hs) p

/-- The frame at the head of the queue goes out and leaves the queue. -/
theorem Accounted.served {front buffer : Buffer} {q : FrameQueue} (h : Accounted a l)
    (hf : a.queue.front? = some front) (hs : a.send front.octets = (.accepted, b))
    (hq : a.queue.pop? = some (buffer, q)) :
    Accounted { b with queue := q } (l.note (.served a.carrier)) := by
  have ho := carrier_outcome hs
  unfold Accounted at h ⊢
  dsimp only
  rw [send_logs hs]
  cases hp : a.queue.priority with
  | cons head tail =>
    simp only [FrameQueue.front?, hp, List.head?_cons] at hf
    cases hf
    simp only [FrameQueue.pop?, hp] at hq
    cases hq
    rw [hp] at h
    exact h.served_priority ho
  | nil =>
    cases hr : a.queue.ordinary with
    | cons head tail =>
      simp only [FrameQueue.front?, hp, hr, List.head?_cons] at hf
      cases hf
      simp only [FrameQueue.pop?, hp, hr] at hq
      cases hq
      rw [hp, hr] at h
      exact h.served_ordinary ho
    | nil => simp [FrameQueue.pop?, hp, hr] at hq

end Sending

/-! ## Queueing -/

section Queueing

theorem Accounted.queued {buffer : Buffer} {p : Bool} (h : Accounted a l)
    (hq : a.queue.push buffer p = .ok b.queue) (hc : b.composite = a.composite) :
    Accounted b (l.note (.queued buffer.octets p)) := by
  have hb := Ledger.Accounts.queued h buffer.octets p
  unfold Accounted
  rw [hc]
  obtain ⟨hp, ho⟩ := FrameQueue.push_lanes hq
  cases p <;> simpa [hp, ho] using hb

variable [FrameSource σ]

theorem Accounted.held (h : Accounted a l) (pool : Pool) (buffer : Buffer) (p : Bool) :
    Accounted (a.enqueue pool buffer p).2.1 (l.noteAll (a.held pool buffer p)) := by
  unfold Adapter.held
  obtain ⟨b, -, hc, ⟨he, hq⟩ | ⟨e, he, hq, -⟩⟩ := enqueue_cases a pool buffer p
  · rw [he]
    exact h.queued hq hc
  · rw [he]
    exact h.of_same hq hc

theorem Accounted.refilled (h : Accounted a l) (pool : Pool) :
    Accounted (a.refill pool).1 (l.noteAll (a.refilled pool)) := by
  unfold Adapter.refilled refill
  split
  · exact h
  · split
    · rename_i hp
      rw [hp]
      obtain ⟨-, hq, hc⟩ := pull_keeps hp
      exact (h.of_same hq hc).held _ _ _
    · rename_i hp
      rw [hp]
      obtain ⟨-, hq, hc⟩ := pull_keeps hp
      exact h.of_same hq hc

/-- A frame held back is queued, or the adapter keeps nothing of it. -/
theorem Accounted.hold {r : Except AdapterError Delivery} {p : Bool} {reason : AdapterError}
    (h : Accounted a l) (hh : a.hold pool f p reason = (r, b, rest)) :
    (r = .ok .queued ∧ Accounted b (l.note (.queued f p))) ∨
      ((∃ e, r = .error e) ∧ Accounted b l) := by
  unfold Adapter.hold at hh
  split at hh
  · cases hh
    exact .inr ⟨⟨_, rfl⟩, h⟩
  · split at hh
    · cases hh
      exact .inr ⟨⟨_, rfl⟩, h⟩
    · rename_i buffer left ht
      have hf : buffer.octets = f := Pool.takeWith_octets ht
      obtain ⟨c, -, hc, ⟨he, hq⟩ | ⟨e, he, hq, -⟩⟩ := enqueue_cases a left buffer p
      · rw [he] at hh
        cases hh
        exact .inl ⟨rfl, hf ▸ h.queued hq hc⟩
      · rw [he] at hh
        cases hh
        exact .inr ⟨⟨e, rfl⟩, h.of_same hq hc⟩

end Queueing

/-! ## Transmitting -/

section Transmitting

variable [FrameSource σ]

theorem Accounted.transmitted {r : Except AdapterError Delivery} {p : Bool} (h : Accounted a l)
    (ht : a.transmit pool f p now = .ok (r, b, rest)) :
    Accounted b (l.noteAll (a.transmitted pool f p now)) := by
  have held : ∀ {c : Adapter σ} {reason : AdapterError}, Accounted c l →
      c.hold pool f p reason = (r, b, rest) →
        Accounted b (l.noteAll (a.transmitted pool f p now)) := by
    intro c reason hc hh
    unfold Adapter.transmitted
    rw [ht]
    obtain ⟨rfl, hb⟩ | ⟨⟨e, rfl⟩, hb⟩ := hc.hold hh <;> exact hb
  cases transmit_course ht with
  | nowhere =>
    unfold Adapter.transmitted
    rw [ht]
    exact h
  | sent _ hq hs hc =>
    obtain ⟨t, rfl, -⟩ := scheduleNext_cases hc
    unfold Adapter.transmitted
    rw [ht]
    exact (h.carried hq hs p).of_same rfl rfl
  | blocked hs hh => exact held (h.send_refused hs (by decide)) hh
  | failed _ hs hc hh =>
    obtain ⟨t, rfl, -⟩ := armRetry_cases hc
    exact held ((h.send_refused hs (by decide)).timed t) hh
  | lost _ _ hs =>
    unfold Adapter.transmitted
    rw [ht]
    exact (h.send_refused hs (by decide)).of_same rfl rfl
  | busy _ hh => exact held h hh

/-- After the head of the queue went out, the queue may be refilled. -/
theorem Accounted.advanced {front : Buffer} (h : Accounted a l) (hf : a.queue.front? = some front)
    (hs : a.send front.octets = (.accepted, b)) (pool : Pool) :
    Accounted (b.advance pool).1 (l.noteAll (.served a.carrier :: b.advanced pool)) := by
  have hq := send_queue hs
  unfold Adapter.advanced advance
  rw [hq]
  cases hp : a.queue.pop? with
  | some popped =>
    obtain ⟨buffer, q⟩ := popped
    have hb := h.served hf hs hp
    exact (hb.of_same (resumeSource_queue _) (resumeSource_composite _)).refilled _
  | none => simp [FrameQueue.front?_of_pop? hp] at hf

theorem Accounted.pulled {r : Option (Buffer × Bool)} (h : Accounted a l)
    (hp : a.pull pool = (r, b, rest)) : Accounted b l := by
  obtain ⟨-, hq, hc⟩ := pull_keeps hp
  exact h.of_same hq hc

/-- A pulled frame that was refused is queued or lost. -/
theorem Accounted.kept {c d : Adapter σ} {buffer : Buffer} {p : Bool} {left : Pool}
    {o : SendOutcome} {r : Except AdapterError Unit} (h : Accounted b l)
    (hs : b.send buffer.octets = (o, c)) (ho : o ≠ .accepted)
    (he : c.enqueue left buffer p = (r, d, rest)) :
    Accounted d (l.noteAll (c.held left buffer p)) := by
  have hd := (h.send_refused hs ho).held left buffer p
  rwa [he] at hd

theorem Accounted.serviced (h : Accounted a l) (hb : a.service pool now = .ok (b, rest)) :
    Accounted b (l.noteAll (a.serviced pool)) := by
  cases service_course hb with
  | suspended hr =>
    have he : a.serviced pool = [] := by simp [Adapter.serviced, hr]
    rw [he]
    exact h.timed .idle
  | @served b c front hr hf hs hc =>
    obtain ⟨t, rfl, -⟩ := scheduleNext_cases hc
    have he : a.serviced pool = .served a.carrier :: b.advanced pool := by
      simp [Adapter.serviced, hr, hf, hs]
    rw [he]
    exact (h.advanced hf hs pool).timed t
  | retried hr hf hs hc =>
    obtain ⟨t, rfl, -⟩ := armRetry_cases hc
    have he : a.serviced pool = [] := by simp [Adapter.serviced, hr, hf, hs]
    rw [he]
    exact (h.send_refused hs (by decide)).timed t
  | blocked hr hf hs =>
    have he : a.serviced pool = [] := by simp [Adapter.serviced, hr, hf, hs]
    rw [he]
    exact h.send_refused hs (by decide)
  | heldBack hr hf hss =>
    have he : a.serviced pool = [] := by simp [Adapter.serviced, hr, hf, hss]
    rw [he]
    exact h
  | nothing hr hf hss hp =>
    have he : a.serviced pool = [] := by simp [Adapter.serviced, hr, hf, hss, hp]
    rw [he]
    exact h.pulled hp
  | @carried b c d buffer p left hr hf hss hp hs hc =>
    obtain ⟨t, rfl, -⟩ := scheduleNext_cases hc
    have he : a.serviced pool = [.carried buffer.octets p b.carrier] := by
      simp [Adapter.serviced, hr, hf, hss, hp, hs]
    have hq : b.queue.isEmpty = true := by
      rw [(pull_keeps hp).2.1]
      exact FrameQueue.isEmpty_of_front? hf
    rw [he]
    exact ((h.pulled hp).carried hq hs p).timed t
  | @kept b c d buffer p left rest r hr hf hss hp hs hq =>
    have he : a.serviced pool = c.held left buffer p := by
      simp [Adapter.serviced, hr, hf, hss, hp, hs]
    rw [he]
    exact (h.pulled hp).kept hs (by decide) hq
  | @deferred b c d e buffer p left rest hr hf hss hp hs hq hc =>
    obtain ⟨t, rfl, -⟩ := armRetry_cases hc
    have he : a.serviced pool = c.held left buffer p := by
      simp [Adapter.serviced, hr, hf, hss, hp, hs]
    rw [he]
    exact ((h.pulled hp).kept hs (by decide) hq).timed t
  | @lost b c d buffer p left rest e hr hf hss hp hs hq =>
    have he : a.serviced pool = c.held left buffer p := by
      simp [Adapter.serviced, hr, hf, hss, hp, hs]
    rw [he]
    exact (h.pulled hp).kept hs (by decide) hq

end Transmitting

/-! ## Runs -/

section Runs

theorem addElement_logs (a : Adapter σ) (e : Element) :
    (a.addElement e).composite.logs = a.composite.logs ++ [e.sent] := by
  unfold addElement
  dsimp only
  split <;> split <;> simp [Composite.logs]

theorem Accounted.attached (h : Accounted a l) (e : Element) :
    Accounted (a.addElement e) (l.note (.attached e.sent)) := by
  unfold Accounted
  rw [addElement_logs]
  exact Ledger.Accounts.attached h e.sent

theorem Accounted.detached (h : Accounted a l) (name : String) :
    Accounted (a.orSame ((a.removeElement name).map (·.2)))
      (l.noteAll ((a.elements.findIdx? (·.name == name)).map Happening.detached).toList) := by
  unfold removeElement Composite.detach? Composite.element? elements
  cases hf : a.composite.elements.find? (·.name == name) with
  | none =>
    have hi : a.composite.elements.findIdx? (·.name == name) = none := by
      rw [List.findIdx?_eq_none_iff]
      simpa using hf
    rw [hi]
    exact h
  | some e =>
    obtain ⟨i, hi⟩ : ∃ i, a.composite.elements.findIdx? (·.name == name) = some i := by
      rw [← Option.isSome_iff_exists, List.findIdx?_isSome]
      have he := List.find?_some hf
      exact List.any_eq_true.2 ⟨e, List.mem_of_find?_eq_some hf, he⟩
    rw [hi]
    have hd := Ledger.Accounts.detached h i
    have hl : (a.composite.elements.eraseP (·.name == name)).map Element.sent =
        a.composite.logs.eraseIdx i := by
      rw [List.eraseP_eq_eraseIdx, hi]
      simp [Composite.logs, List.eraseIdx_eq_take_drop_succ, List.map_take, List.map_drop]
    unfold Accounted
    exact (hl ▸ hd :)

theorem Accounted.mapped (h : Accounted a l) {g : Element → Element}
    (hg : ∀ e, (g e).sent = e.sent) :
    Accounted (a.mapElements g) l :=
  h.congr rfl rfl (Composite.map_logs hg a.composite)

theorem Accounted.modified (h : Accounted a l) (name : String) {g : Element → Element}
    (hg : ∀ e, (g e).sent = e.sent) : Accounted (a.orSame (a.modifyElement name g)) l := by
  unfold modifyElement
  split
  · exact h.congr rfl rfl (Composite.modifyFirst_logs hg name a.composite.elements)
  · exact h

theorem Accounted.closed (h : Accounted a l) (pool : Pool) :
    Accounted (a.close pool).1 (l.note .emptied) := by
  have he := Ledger.Accounts.emptied h
  have hc : (a.close pool).1.composite.logs = a.composite.logs :=
    Composite.map_logs Element.close_sent a.composite
  unfold Accounted
  rw [hc]
  exact he

variable [FrameSource σ]

theorem Accounted.deepened (h : Accounted a l) (pool : Pool) (depth : QueueDepth) :
    Accounted (a.setQueueDepth pool depth).1
      (l.noteAll (if depth.isEnabled then [] else [.emptied])) := by
  by_cases hd : depth.isEnabled = true
  · rw [if_pos hd]
    exact h.congr (by simp [FrameQueue.setDepth, hd]) (by simp [FrameQueue.setDepth, hd]) (by simp)
  · rw [if_neg hd]
    have he : (l.noteAll [.emptied]).Accounts [] [] a.composite.logs := Ledger.Accounts.emptied h
    unfold Accounted
    simpa [FrameQueue.setDepth, FrameQueue.clear, hd] using he

theorem onTimer_accounted {fired : Bool} (h : Accounted a l)
    (hb : a.onTimer pool now = .ok (fired, b, rest)) :
    Accounted b (l.noteAll (a.happenings (.onTimer pool now))) := by
  unfold onTimer at hb
  simp only [happenings]
  split at hb
  · rename_i hf
    cases hb
    rw [hf]
    exact h
  · rename_i t hf
    rw [hf]
    dsimp only at hb ⊢
    split at hb
    · rename_i ho
      cases hb
      rw [if_pos ho]
      exact h.timed t
    · rename_i ho
      obtain ⟨⟨d, left⟩, hs, hb⟩ := ok_of_bind hb
      cases hb
      rw [if_neg ho]
      exact (h.timed t).serviced hs

theorem onOutputReady_accounted (h : Accounted a l)
    (hb : a.onOutputReady pool now = .ok (b, rest)) :
    Accounted b (l.noteAll (a.happenings (.onOutputReady pool now))) := by
  unfold onOutputReady at hb
  simp only [happenings]
  split at hb
  · rename_i ho
    cases hb
    have ho : a.outputPending = false := by simpa using ho
    simpa [ho, Ledger.noteAll] using h
  · rename_i ho
    have hp : a.outputPending = true := by simpa using ho
    have hm : Accounted ({ a with outputPending := false }.mapElements Element.stopOutput) l :=
      h.mapped Element.stopOutput_sent
    rw [hp, Bool.true_and]
    dsimp only at hb
    split at hb
    · rename_i hi
      have hi : (!a.rate.isSuspended && !a.timer.isArmed) = true := hi
      rw [if_pos hi]
      exact hm.serviced hb
    · rename_i hi
      have hi : ¬(!a.rate.isSuspended && !a.timer.isArmed) = true := hi
      cases hb
      rw [if_neg hi]
      exact hm

theorem onSourceReady_accounted (h : Accounted a l)
    (hb : a.onSourceReady pool now = .ok (b, rest)) :
    Accounted b (l.noteAll (a.happenings (.onSourceReady pool now))) := by
  unfold onSourceReady at hb
  simp only [happenings]
  split at hb
  · rename_i hi
    rw [if_pos hi]
    exact h.serviced hb
  · rename_i hi
    cases hb
    rw [if_neg hi]
    exact h

theorem next_accounted (h : Accounted a l) (e : Event σ) (hd : e.isDirectSend = false)
    (hb : a.next e = .ok b) : Accounted b (l.noteAll (a.happenings e)) := by
  cases e with
  | addElement e =>
    cases hb
    exact h.attached e
  | removeElement name =>
    cases hb
    exact h.detached name
  | setElementTx name on =>
    cases hb
    refine h.modified name fun e => ?_
    cases on <;> cases a.outputPending <;> simp
  | setElementRx name on =>
    cases hb
    exact h.modified name fun e => Element.setRx_sent e on
  | setRateLimit rate now =>
    obtain ⟨t, rfl⟩ := setRateLimit_cases hb
    exact h.of_same rfl rfl
  | setQueueDepth pool depth =>
    cases hb
    exact h.deepened pool depth
  | send f => cases hd
  | transmit pool f priority now =>
    obtain ⟨⟨r, c, rest⟩, hc, rfl⟩ := ok_of_map hb
    exact h.transmitted hc
  | onTimer pool now =>
    obtain ⟨⟨r, c, rest⟩, hc, rfl⟩ := ok_of_map hb
    exact onTimer_accounted h hc
  | onOutputReady pool now =>
    obtain ⟨⟨c, rest⟩, hc, rfl⟩ := ok_of_map hb
    exact onOutputReady_accounted h hc
  | onSourceReady pool now =>
    obtain ⟨⟨c, rest⟩, hc, rfl⟩ := ok_of_map hb
    exact onSourceReady_accounted h hc
  | close pool =>
    cases hb
    exact h.closed pool
  | channels change =>
    cases hb
    exact h.mapped fun e => rfl
  | setPolicy | bindVif | unbindVif | setShadow | bindSource | unbindSource | producer =>
    cases hb
    exact h

/-- In every run in which nothing is sent directly, every frame taken was accepted once, waits once
in the queue or was discarded, in order within its class. -/
theorem recorded_accounted (h : Recorded a l) : Accounted a l := by
  induction h with
  | new owner name => exact Ledger.accounts_empty
  | next e _ hd hb ih => exact next_accounted ih e hd hb

end Runs

/-- Control traffic overtakes a frame that met a full channel, and each goes out once. -/
theorem overtaken_frame_follows : ∃ (a : Adapter DeviceSource) (l : Ledger), Recorded a l ∧
    l.delivered.map Taken.ticket = [1, 0] ∧ l.waiting = [] ∧ Accounted a l := by
  have fresh : Recorded (new ⟨1⟩ "wan0" : Adapter DeviceSource) {} := .new _ _
  have attached := fresh.next (.addElement (.new { name := "eth1", script := [.block] })) rfl rfl
  have queueing := attached.next (.setQueueDepth (.new 4 64) (.bounded 2)) rfl rfl
  have refused := queueing.next (.transmit (.new 4 64) [1, 2, 3] false 0) rfl rfl
  have overtaking := refused.next (.transmit (.new 4 64) [4, 5, 6] true 0) rfl rfl
  have roomy := overtaking.next (.onOutputReady (.new 4 64) 0) rfl rfl
  have done := roomy.next (.onTimer (.new 4 64) 0) rfl rfl
  exact ⟨_, _, done, rfl, rfl, recorded_accounted done⟩

end MulticastRelay.Adapter
