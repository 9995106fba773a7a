import MulticastRelay.Proofs.Adapter.Storage
import MulticastRelay.Proofs.Channel.Inlet

/-! # Inlets of an adapter

An adapter sends, queues, waits for room and pulls from its source without receiving anything from its
elements. Along the way its buffers change hands, but not the size that the pool gives them.
-/
namespace MulticastRelay.Adapter

variable {σ : Type}

/-- The inlets of the elements, in order. -/
def inlets (a : Adapter σ) : List Inlet := a.elements.map Element.inlet

/-- From one adapter and pool to the next nothing is received, and buffers are of one size. -/
structure Undisturbed (a : Adapter σ) (p : Pool) (b : Adapter σ) (q : Pool) : Prop where
  inlets : b.inlets = a.inlets
  frameSize : q.frameSize = p.frameSize

namespace Undisturbed

variable {a b c : Adapter σ} {p q r : Pool}

theorem trans (h : Undisturbed a p b q) (h' : Undisturbed b q c r) : Undisturbed a p c r :=
  ⟨h'.inlets.trans h.inlets, h'.frameSize.trans h.frameSize⟩

theorem of_inlets (h : b.inlets = a.inlets) : Undisturbed a p b p := ⟨h, rfl⟩

theorem of_composite (h : b.composite = a.composite) (hs : q.frameSize = p.frameSize) :
    Undisturbed a p b q :=
  ⟨by rw [Adapter.inlets, Adapter.inlets, elements, elements, h], hs⟩

end Undisturbed

/-! ## Helpers -/

section Helpers

variable {a b : Adapter σ} {p q : Pool} {f : Frame} {n : Nat} {now : Instant}

theorem inlets_mapElements {g : Element → Element} (hg : ∀ e, (g e).inlet = e.inlet)
    (a : Adapter σ) : (a.mapElements g).inlets = a.inlets := by
  simp [inlets, elements, mapElements, Composite.map, Function.comp_def, hg]

theorem send_undisturbed {o : SendOutcome} (h : a.send f = (o, b)) : Undisturbed a p b p := by
  have hc : (a.composite.send f a.sourceOverride).2.elements.map Element.inlet = a.inlets :=
    a.composite.send_inlets f a.sourceOverride
  apply Undisturbed.of_inlets
  rw [send_eq h]
  cases o with
  | accepted | failed => exact hc
  | blocked =>
    refine (inlets_mapElements (fun e => ?_) _).trans hc
    split
    · exact e.startOutput_inlet
    · rfl

theorem scheduleNext_undisturbed (h : a.scheduleNext n now = .ok b) : Undisturbed a p b p := by
  obtain ⟨t, rfl, -⟩ := scheduleNext_cases h
  exact .of_inlets rfl

theorem armRetry_undisturbed (h : a.armRetry n now = .ok b) : Undisturbed a p b p := by
  obtain ⟨t, rfl, -⟩ := armRetry_cases h
  exact .of_inlets rfl

theorem endWait_undisturbed (a : Adapter σ) (p : Pool) : Undisturbed a p a.endWait p :=
  .of_inlets (inlets_mapElements Element.stopOutput_inlet { a with outputPending := false })

variable [FrameSource σ]

theorem enqueue_undisturbed {buffer : Buffer} {priority : Bool} {r : Except AdapterError Unit}
    (h : a.enqueue p buffer priority = (r, b, q)) : Undisturbed a p b q := by
  refine .of_composite (enqueue_keeps h).2 ?_
  obtain ⟨c, -, -, ⟨he, -⟩ | ⟨e, he, -⟩⟩ := enqueue_cases a p buffer priority
  · cases he.symm.trans h
    rfl
  · cases he.symm.trans h
    exact p.put_frameSize buffer

theorem hold_undisturbed {priority : Bool} {reason : AdapterError}
    {r : Except AdapterError Delivery} (h : a.hold p f priority reason = (r, b, q)) :
    Undisturbed a p b q :=
  .of_composite (hold_keeps h).2 (hold_lent h).frameSize

/-- Handing a frame to an adapter receives nothing. -/
theorem transmit_undisturbed {priority : Bool} {r : Except AdapterError Delivery}
    (h : a.transmit p f priority now = .ok (r, b, q)) : Undisturbed a p b q := by
  cases transmit_course h with
  | nowhere => exact .of_inlets rfl
  | sent _ _ hs hn => exact (send_undisturbed hs).trans (scheduleNext_undisturbed hn)
  | lost _ _ hs => exact .of_inlets (send_undisturbed hs (p := p)).inlets
  | blocked hs hh => exact (send_undisturbed hs).trans (hold_undisturbed hh)
  | failed _ hs hr hh =>
    exact ((send_undisturbed hs).trans (armRetry_undisturbed hr)).trans (hold_undisturbed hh)
  | busy _ hh => exact hold_undisturbed hh

end Helpers

/-! ## Requests of a turn -/

section Turns

variable {a b : Station} {p q : Pool} {now : Instant}

theorem pull_undisturbed {r : Option (Buffer × Bool)} (h : a.pull p = (r, b, q)) :
    Undisturbed a p b q := by
  refine .of_composite (pull_keeps h).2.2 ?_
  unfold pull at h
  split at h
  · cases h
    rfl
  · rename_i source _
    cases h
    show (source.pull p).2.2.frameSize = p.frameSize
    unfold DeviceSource.pull
    split
    · rfl
    · rename_i buffer rest ht
      have hs := (Pool.take_frameSize ht).2
      split
      · exact hs
      · exact (rest.put_frameSize _).trans hs

theorem refill_undisturbed (a : Station) (p : Pool) :
    Undisturbed a p (a.refill p).1 (a.refill p).2 := by
  unfold refill
  split
  · exact .of_inlets rfl
  · split
    · rename_i hp
      exact (pull_undisturbed hp).trans (enqueue_undisturbed rfl)
    · rename_i hp
      exact pull_undisturbed hp

theorem advance_undisturbed (a : Station) (p : Pool) :
    Undisturbed a p (a.advance p).1 (a.advance p).2 := by
  unfold advance
  split
  · rename_i buffer queue _
    have resumed : Undisturbed a p ({ a with queue } : Station).resumeSource (p.put buffer) :=
      .of_composite (resumeSource_composite _) (p.put_frameSize buffer)
    exact resumed.trans (refill_undisturbed _ _)
  · exact (Undisturbed.of_composite (resumeSource_composite a) rfl).trans (refill_undisturbed _ _)

theorem service_undisturbed (h : a.service p now = .ok (b, q)) : Undisturbed a p b q := by
  cases service_course h with
  | suspended => exact .of_inlets rfl
  | served _ _ hs hn =>
    exact ((send_undisturbed hs).trans (advance_undisturbed _ p)).trans (scheduleNext_undisturbed hn)
  | retried _ _ hs hr => exact (send_undisturbed hs).trans (armRetry_undisturbed hr)
  | blocked _ _ hs => exact send_undisturbed hs
  | heldBack => exact .of_inlets rfl
  | nothing _ _ _ hp => exact pull_undisturbed hp
  | carried _ _ _ hp hs hn =>
    have hput := (pull_undisturbed hp).trans
      ((send_undisturbed hs).trans (scheduleNext_undisturbed hn))
    exact ⟨hput.inlets, hput.frameSize⟩
  | kept _ _ _ hp hs he =>
    exact (pull_undisturbed hp).trans ((send_undisturbed hs).trans (enqueue_undisturbed he))
  | deferred _ _ _ hp hs he hr =>
    exact ((pull_undisturbed hp).trans ((send_undisturbed hs).trans (enqueue_undisturbed he))).trans
      (armRetry_undisturbed hr)
  | lost _ _ _ hp hs he =>
    exact (pull_undisturbed hp).trans ((send_undisturbed hs).trans (enqueue_undisturbed he))

theorem onTimer_undisturbed {fired : Bool} (h : a.onTimer p now = .ok (fired, b, q)) :
    Undisturbed a p b q := by
  unfold onTimer at h
  split at h
  · cases h
    exact .of_inlets rfl
  · dsimp only at h
    split at h
    · cases h
      exact .of_inlets rfl
    · obtain ⟨⟨c, r⟩, hs, h⟩ := ok_of_bind h
      cases h
      have served := service_undisturbed hs
      exact ⟨served.inlets, served.frameSize⟩

theorem onOutputReady_undisturbed (h : a.onOutputReady p now = .ok (b, q)) :
    Undisturbed a p b q := by
  unfold onOutputReady at h
  split at h
  · cases h
    exact .of_inlets rfl
  · dsimp only at h
    split at h
    · exact (endWait_undisturbed a p).trans (service_undisturbed h)
    · cases h
      exact endWait_undisturbed a p

theorem onSourceReady_undisturbed (h : a.onSourceReady p now = .ok (b, q)) :
    Undisturbed a p b q := by
  unfold onSourceReady at h
  split at h
  · exact service_undisturbed h
  · cases h
    exact .of_inlets rfl

end Turns

end MulticastRelay.Adapter
