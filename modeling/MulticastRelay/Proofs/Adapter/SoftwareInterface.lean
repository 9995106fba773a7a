import MulticastRelay.Proofs.Adapter.Effects

/-! # The software interface of an adapter

An adapter that is bound to a software interface stays bound to it, whatever it sends, queues or waits
for, also when it is closed.
-/
namespace MulticastRelay.Adapter

variable {σ : Type} {a b : Adapter σ} {pool rest : Pool} {f : Frame} {p : Bool} {now : Instant}
  {length : Nat}

/-- The interface of the adapter, and the software interface that it is bound to. -/
def bond (a : Adapter σ) : InterfaceId × Option VifBinding := (a.owner, a.vif)

theorem send_bond {o : SendOutcome} (h : a.send f = (o, b)) : b.bond = a.bond := by
  rw [send_eq h]
  cases o <;> rfl

theorem scheduleNext_bond (h : a.scheduleNext length now = .ok b) : b.bond = a.bond := by
  obtain ⟨t, rfl, -⟩ := scheduleNext_cases h
  rfl

theorem armRetry_bond (h : a.armRetry length now = .ok b) : b.bond = a.bond := by
  obtain ⟨t, rfl, -⟩ := armRetry_cases h
  rfl

theorem setRateLimit_bond {rate : Float} (h : a.setRateLimit rate now = .ok b) : b.bond = a.bond := by
  obtain ⟨t, rfl⟩ := setRateLimit_cases h
  rfl

theorem modifyElement_bond {name : String} {g : Element → Element}
    (h : a.modifyElement name g = .ok b) : b.bond = a.bond := by
  unfold modifyElement at h
  split at h
  · cases h
    rfl
  · cases h

theorem removeElement_bond {name : String} {e : Element}
    (h : a.removeElement name = .ok (e, b)) : b.bond = a.bond := by
  unfold removeElement at h
  split at h
  · cases h
    rfl
  · cases h

@[simp] theorem close_bond (a : Adapter σ) (pool : Pool) : (a.close pool).1.bond = a.bond := rfl

variable [FrameSource σ]

@[simp] theorem suspendSource_bond (a : Adapter σ) : a.suspendSource.bond = a.bond := by
  unfold suspendSource
  split
  · rfl
  · split <;> rfl

@[simp] theorem resumeSource_bond (a : Adapter σ) : a.resumeSource.bond = a.bond := by
  unfold resumeSource
  split <;> rfl

@[simp] theorem setQueueDepth_bond (a : Adapter σ) (pool : Pool) (depth : QueueDepth) :
    (a.setQueueDepth pool depth).1.bond = a.bond := resumeSource_bond _

theorem enqueue_bond {buffer : Buffer} {r : Except AdapterError Unit}
    (h : a.enqueue pool buffer p = (r, b, rest)) : b.bond = a.bond := by
  unfold enqueue at h
  split at h
  · cases h
    split
    · exact suspendSource_bond _
    · rfl
  · cases h
    exact suspendSource_bond _
  · cases h
    rfl

theorem pull_bond {r : Option (Buffer × Bool)} (h : a.pull pool = (r, b, rest)) : b.bond = a.bond := by
  unfold pull at h
  split at h
  · cases h
    rfl
  · cases h
    rfl

theorem hold_bond {reason : AdapterError} {r : Except AdapterError Delivery}
    (h : a.hold pool f p reason = (r, b, rest)) : b.bond = a.bond := by
  unfold hold at h
  split at h
  · cases h
    rfl
  · split at h
    · cases h
      rfl
    · rename_i buffer left _
      cases h
      exact enqueue_bond (r := (a.enqueue left buffer p).1) rfl

@[simp] theorem refill_bond (a : Adapter σ) (pool : Pool) : (a.refill pool).1.bond = a.bond := by
  unfold refill
  split
  · rfl
  · split
    · rename_i buffer priority b left hp
      exact (enqueue_bond (r := (b.enqueue left buffer priority).1) rfl).trans (pull_bond hp)
    · rename_i b left hp
      exact pull_bond hp

@[simp] theorem advance_bond (a : Adapter σ) (pool : Pool) : (a.advance pool).1.bond = a.bond := by
  unfold advance
  split
  · rw [refill_bond, resumeSource_bond]
    rfl
  · rw [refill_bond, resumeSource_bond]

theorem transmit_bond {r : Except AdapterError Delivery}
    (h : a.transmit pool f p now = .ok (r, b, rest)) : b.bond = a.bond := by
  cases transmit_course h with
  | nowhere => rfl
  | sent _ _ hs hn => exact (scheduleNext_bond hn).trans (send_bond hs)
  | blocked hs hh => exact (hold_bond hh).trans (send_bond hs)
  | failed _ hs hr hh => exact (hold_bond hh).trans ((armRetry_bond hr).trans (send_bond hs))
  | lost _ _ hs => exact (send_bond hs :)
  | busy _ hh => exact hold_bond hh

theorem service_bond (h : a.service pool now = .ok (b, rest)) : b.bond = a.bond := by
  cases service_course h with
  | suspended => rfl
  | served _ _ hs hn => exact (scheduleNext_bond hn).trans ((advance_bond _ _).trans (send_bond hs))
  | retried _ _ hs hr => exact (armRetry_bond hr).trans (send_bond hs)
  | blocked _ _ hs => exact send_bond hs
  | heldBack => rfl
  | nothing _ _ _ hp => exact pull_bond hp
  | carried _ _ _ hp hs hn => exact (scheduleNext_bond hn).trans ((send_bond hs).trans (pull_bond hp))
  | kept _ _ _ hp hs he => exact (enqueue_bond he).trans ((send_bond hs).trans (pull_bond hp))
  | deferred _ _ _ hp hs he hr =>
    exact (armRetry_bond hr).trans ((enqueue_bond he).trans ((send_bond hs).trans (pull_bond hp)))
  | lost _ _ _ hp hs he => exact (enqueue_bond he).trans ((send_bond hs).trans (pull_bond hp))

theorem onTimer_bond {fired : Bool} (h : a.onTimer pool now = .ok (fired, b, rest)) :
    b.bond = a.bond := by
  unfold onTimer at h
  split at h
  · cases h
    rfl
  · dsimp only at h
    split at h
    · cases h
      rfl
    · obtain ⟨⟨c, left⟩, hs, h⟩ := ok_of_bind h
      cases h
      exact (service_bond hs :)

theorem onOutputReady_bond (h : a.onOutputReady pool now = .ok (b, rest)) : b.bond = a.bond := by
  unfold onOutputReady at h
  split at h
  · cases h
    rfl
  · dsimp only at h
    split at h
    · exact (service_bond h :)
    · cases h
      rfl

theorem onSourceReady_bond (h : a.onSourceReady pool now = .ok (b, rest)) : b.bond = a.bond := by
  unfold onSourceReady at h
  split at h
  · exact service_bond h
  · cases h
    rfl

end MulticastRelay.Adapter
