import MulticastRelay.Node.Turn
import MulticastRelay.Proofs.Adapter.Registration
import MulticastRelay.Proofs.Channel.Inlet
import MulticastRelay.Proofs.Channel.Rounds

/-! # What lasts at elements

A property of elements that holds when one is attached and outlasts everything done to it holds of all
elements, whatever the adapter sends, captures or waits for. Beside it stands the cursor of the rounds:
sends move it cyclically and removals send it back to the start, so that it never leaves the elements.
-/
namespace MulticastRelay

/-- A property of elements that nothing done to an attached element ends. -/
structure Element.Lasting (P : Element → Prop) : Prop where
  /-- Capture is registered as a device is attached. -/
  attached : ∀ name serial, P (new { name, serial }).startInput
  setOutput : ∀ e on, P e → P (e.setOutput on)
  setTx : ∀ e on, P e → P (e.setTx on)
  setRx : ∀ e on, P e → P (e.setRx on)
  send : ∀ e f source, P e → P (e.send f source).2
  receive : ∀ e space, P e → P (e.receive space).2.2
  close : ∀ e, P e → P e.close
  /-- The far end of the device changes. -/
  meanwhile : ∀ e change, P e → P { e with device := e.device.meanwhile change }

theorem Element.lasting_trivial : Lasting fun _ => True := by
  constructor <;> intros <;> trivial

theorem RoundRobin.clamp_within (cursor len : Nat) : clamp cursor len = 0 ∨ clamp cursor len < len := by
  unfold clamp
  split
  · exact .inl rfl
  · exact .inr (by omega)

/-- A round leaves the cursor at an element or at the start. -/
theorem RoundRobin.send_within (cursor : Nat) (es : List Element) (f : Frame)
    (source : Option LinkAddress) :
    (send cursor es f source).2.1 = 0 ∨ (send cursor es f source).2.1 < es.length := by
  have hround := send_round cursor es f source
  cases ht : (send cursor es f source).1.taker with
  | none => exact send_cursor_of_refused ht ▸ clamp_within cursor es.length
  | some i =>
    obtain ⟨-, htakes, -, hnext⟩ := hround.taken i ht
    obtain ⟨e, he, -⟩ := (Option.any_eq_true _ _).1 htakes
    obtain ⟨hi, -⟩ := List.getElem?_eq_some_iff.1 he
    exact .inr (hnext ▸ Nat.mod_lt _ (Nat.zero_lt_of_lt hi))

namespace Composite

variable {P : Element → Prop} {c d : Composite}

/-- The elements have a property, and the cursor is at one of them or at the start. -/
structure Upholds (P : Element → Prop) (c : Composite) : Prop where
  elements : ∀ e ∈ c.elements, P e
  cursor : c.cursor = 0 ∨ c.cursor < c.elements.length

theorem length_modifyFirst (name : String) (g : Element → Element) (es : List Element) :
    (modifyFirst name g es).length = es.length := by
  induction es with
  | nil => rfl
  | cons e es ih =>
    unfold modifyFirst
    split
    · rfl
    · exact congrArg (· + 1) ih

namespace Upholds

/-- Other elements in the place of the present ones, as many as they are. -/
theorem replace (h : c.Upholds P) {es : List Element} (he : ∀ e ∈ es, P e)
    (hl : es.length = c.elements.length) : Upholds P { c with elements := es } :=
  ⟨he, h.cursor.imp_right fun hc => hl.symm ▸ hc⟩

theorem map (h : c.Upholds P) {g : Element → Element} (hg : ∀ e, P e → P (g e)) :
    (c.map g).Upholds P := by
  refine h.replace (fun e he => ?_) (List.length_map ..)
  obtain ⟨x, hx, rfl⟩ := List.mem_map.1 he
  exact hg x (h.elements x hx)

theorem modifyFirst (h : c.Upholds P) (name : String) {g : Element → Element}
    (hg : ∀ e, P e → P (g e)) :
    Upholds P { c with elements := Composite.modifyFirst name g c.elements } :=
  h.replace (modifyFirst_forall hg name h.elements) (length_modifyFirst name g _)

theorem append (h : c.Upholds P) {e : Element} (he : P e) :
    Upholds P { c with elements := c.elements ++ [e] } := by
  refine ⟨List.forall_mem_append.2 ⟨h.elements, List.forall_mem_singleton.2 he⟩, ?_⟩
  refine h.cursor.imp_right fun hc => ?_
  rw [List.length_append]
  exact Nat.lt_add_right _ hc

theorem detach (h : c.Upholds P) {name : String} {e : Element} (hd : c.detach? name = some (e, d)) :
    d.Upholds P := by
  refine ⟨(detach_forall hd h.elements).2, ?_⟩
  unfold detach? at hd
  split at hd
  · cases hd
  · cases hd
    exact RoundRobin.clamp_within _ _

theorem send (hP : Element.Lasting P) (h : c.Upholds P) (f : Frame) (source : Option LinkAddress) :
    (c.send f source).2.Upholds P := by
  refine ⟨send_forall (hP.send · f source) h.elements, ?_⟩
  have hlen : (c.send f source).2.elements.length = c.elements.length := by
    have hsame : (c.send f source).2.elements.map (fun _ => ()) = c.elements.map fun _ => () :=
      c.send_map fun _ => rfl
    simpa using congrArg List.length hsame
  have hcursor := h.cursor
  rw [hlen]
  unfold Composite.send
  split
  · exact hcursor
  · split <;> exact hcursor
  · split
    · exact hcursor
    · exact RoundRobin.send_within c.cursor c.elements f source

end Upholds
end Composite

namespace Adapter

variable {σ : Type} {P : Element → Prop} {a b : Adapter σ} {n : Nat} {now : Instant} {pool rest : Pool}

/-- What the composite device of the adapter upholds. -/
def Upholds (P : Element → Prop) (a : Adapter σ) : Prop := a.composite.Upholds P

theorem Upholds.of_composite (h : a.Upholds P) (hc : b.composite = a.composite) : b.Upholds P := by
  unfold Upholds
  rw [hc]
  exact h

theorem new_upholds (P : Element → Prop) (owner : InterfaceId) (name : String) :
    (new owner name : Adapter σ).Upholds P :=
  ⟨List.forall_mem_nil _, .inl rfl⟩

theorem Upholds.mapElements (h : a.Upholds P) {g : Element → Element} (hg : ∀ e, P e → P (g e)) :
    (a.mapElements g).Upholds P :=
  Composite.Upholds.map h hg

theorem Upholds.modifyElement {name : String} {g : Element → Element} (h : a.Upholds P)
    (hg : ∀ e, P e → P (g e)) (hb : a.modifyElement name g = .ok b) : b.Upholds P := by
  unfold Adapter.modifyElement at hb
  split at hb
  · cases hb
    exact Composite.Upholds.modifyFirst h name hg
  · cases hb

theorem Upholds.removeElement {name : String} {e : Element} (h : a.Upholds P)
    (hb : a.removeElement name = .ok (e, b)) : b.Upholds P := by
  unfold Adapter.removeElement at hb
  split at hb
  · rename_i hd
    cases hb
    exact Composite.Upholds.detach h hd
  · cases hb

variable (hP : Element.Lasting P)

include hP

omit hP in
/-- A new device is registered for capture, and for room if the adapter waits. -/
theorem addElement_new (a : Adapter σ) (d : Device) :
    a.addElement (.new d) = { a with
      composite.elements := a.elements ++ [(Element.new d).startInput.setOutput a.outputPending] } := by
  unfold addElement
  cases a.outputPending <;> rfl

theorem Upholds.attach (h : a.Upholds P) (name : String) (serial : Nat) :
    (a.addElement (.new { name, serial })).Upholds P := by
  rw [addElement_new]
  exact Composite.Upholds.append h (hP.setOutput _ _ (hP.attached name serial))

theorem Upholds.setElementTx {name : String} {on : Bool} (h : a.Upholds P)
    (hb : a.setElementTx name on = .ok b) : b.Upholds P := by
  refine h.modifyElement (fun e he => ?_) hb
  have ht := hP.setTx e on he
  split
  · exact hP.setOutput _ false ht
  · split
    · exact hP.setOutput _ true ht
    · exact ht

theorem Upholds.close (h : a.Upholds P) (pool : Pool) : (a.close pool).1.Upholds P :=
  Composite.Upholds.map h hP.close

theorem Upholds.waitForRoom (h : a.Upholds P) : a.waitForRoom.Upholds P := by
  refine Composite.Upholds.map h fun e he => ?_
  split
  · exact hP.setOutput e true he
  · exact he

theorem Upholds.send {f : Frame} {o : SendOutcome} (h : a.Upholds P) (hb : a.send f = (o, b)) :
    b.Upholds P := by
  have hc := Composite.Upholds.send hP h f a.sourceOverride
  rw [send_eq hb]
  cases o with
  | accepted => exact hc
  | failed => exact hc
  | blocked => exact waitForRoom hP hc

theorem Upholds.endWait (h : a.Upholds P) : a.endWait.Upholds P :=
  Composite.Upholds.map h (hP.setOutput · false)

omit hP in
theorem Upholds.scheduleNext (h : a.Upholds P) (hb : a.scheduleNext n now = .ok b) :
    b.Upholds P := by
  obtain ⟨t, rfl, -⟩ := scheduleNext_cases hb
  exact h

omit hP in
theorem Upholds.armRetry (h : a.Upholds P) (hb : a.armRetry n now = .ok b) : b.Upholds P := by
  obtain ⟨t, rfl, -⟩ := armRetry_cases hb
  exact h

variable [FrameSource σ]

theorem Upholds.transmit {f : Frame} {priority : Bool} {r : Except AdapterError Delivery}
    (h : a.Upholds P) (hb : a.transmit pool f priority now = .ok (r, b, rest)) : b.Upholds P := by
  cases transmit_course hb with
  | nowhere => exact h
  | sent _ _ hs hc => exact (h.send hP hs).scheduleNext hc
  | blocked hs hh => exact (h.send hP hs).of_composite (hold_keeps hh).2
  | failed _ hs hc hh => exact ((h.send hP hs).armRetry hc).of_composite (hold_keeps hh).2
  | lost _ _ hs => exact (h.send hP hs).of_composite rfl
  | busy _ hh => exact h.of_composite (hold_keeps hh).2

theorem Upholds.service (h : a.Upholds P) (hb : a.service pool now = .ok (b, rest)) :
    b.Upholds P := by
  have hpulled : ∀ {c : Adapter σ} {left : Pool} {p : Option (Buffer × Bool)},
      a.pull pool = (p, c, left) → c.Upholds P :=
    fun hp => h.of_composite (pull_keeps hp).2.2
  cases service_course hb with
  | suspended => exact h
  | served _ _ hs hc =>
    exact ((h.send hP hs).of_composite (advance_composite ..)).scheduleNext hc
  | retried _ _ hs hc => exact (h.send hP hs).armRetry hc
  | blocked _ _ hs => exact h.send hP hs
  | heldBack => exact h
  | nothing _ _ _ hp => exact hpulled hp
  | carried _ _ _ hp hs hc => exact ((hpulled hp).send hP hs).scheduleNext hc
  | kept _ _ _ hp hs he => exact ((hpulled hp).send hP hs).of_composite (enqueue_keeps he).2
  | deferred _ _ _ hp hs he hc =>
    exact (((hpulled hp).send hP hs).of_composite (enqueue_keeps he).2).armRetry hc
  | lost _ _ _ hp hs he => exact ((hpulled hp).send hP hs).of_composite (enqueue_keeps he).2

theorem Upholds.onTimer {fired : Bool} (h : a.Upholds P)
    (hb : a.onTimer pool now = .ok (fired, b, rest)) : b.Upholds P := by
  have hidle : Upholds P { a with timer := .idle } := h
  obtain rfl | ⟨-, rfl | hs⟩ := onTimer_course hb
  · exact h
  · exact hidle
  · exact hidle.service hP hs

theorem Upholds.onOutputReady (h : a.Upholds P) (hb : a.onOutputReady pool now = .ok (b, rest)) :
    b.Upholds P := by
  have hend := h.endWait hP
  obtain rfl | rfl | ⟨-, hs⟩ := onOutputReady_course hb
  · exact h
  · exact hend
  · exact hend.service hP hs

theorem Upholds.onSourceReady (h : a.Upholds P) (hb : a.onSourceReady pool now = .ok (b, rest)) :
    b.Upholds P := by
  obtain rfl | ⟨-, hs⟩ := onSourceReady_course hb
  · exact h
  · exact h.service hP hs

end Adapter

namespace Node

variable {P : Element → Prop} (hP : Element.Lasting P)

include hP

/-! ## Capture -/

theorem captureInto_lasting {e : Element} (h : P e) (space : List UInt8) :
    P (captureInto e space).2.2 := by
  have hr := hP.receive e space h
  unfold captureInto
  split
  all_goals
    rename_i he
    rw [he] at hr
    exact hr

theorem drain_lasting (budget : Nat) {e : Element} (h : P e) (p : Pool) :
    P (drain budget e p).element := by
  induction budget generalizing e p with
  | zero => exact h
  | succ budget ih =>
    unfold drain
    split
    · exact h
    · rename_i buffer rest _
      have hf : P (buffer.fillWith (captureInto e)).2.2 := by
        have hc := captureInto_lasting hP h buffer.blank.octets
        unfold Buffer.fillWith
        dsimp only
        split <;> exact hc
      split
      · rename_i he
        rw [he] at hf
        exact ih hf _
      · rename_i he
        rw [he] at hf
        exact ih hf _
      · rename_i he
        rw [he] at hf
        exact hf

theorem sweep_lasting {es : List Element} (h : ∀ e ∈ es, P e) (p : Pool) :
    (∀ e ∈ (sweep es p).elements, P e) ∧ (sweep es p).elements.length = es.length := by
  induction es generalizing p with
  | nil => exact ⟨h, rfl⟩
  | cons e es ih =>
    obtain ⟨he, hes⟩ := List.forall_mem_cons.1 h
    let d : Drained :=
      if e.poll.isReadable && e.rxEnabled then drain receiveBudget e p else ⟨[], e, p, false⟩
    have hd : P d.element := by
      by_cases hr : (e.poll.isReadable && e.rxEnabled) = true
      · simp only [d, if_pos hr]
        exact drain_lasting hP receiveBudget he p
      · simp only [d, if_neg hr]
        exact he
    obtain ⟨hmore, hlen⟩ := ih hes d.pool
    exact ⟨List.forall_mem_cons.2 ⟨hd, hmore⟩, congrArg (· + 1) hlen⟩

end Node
end MulticastRelay
