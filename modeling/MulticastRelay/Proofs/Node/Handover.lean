import MulticastRelay.Proofs.Node.Dispatch
import MulticastRelay.Proofs.Adapter.Buffers

/-! # Handovers

A handover is a frame for the adapter of one interface. Delivery is a list of handovers of one frame,
and a computation that hands over in parts carries out the parts one after the other.
-/
namespace MulticastRelay

/-- A frame for the adapter of an interface. -/
structure Handover where
  dest : InterfaceId
  frame : Frame
deriving DecidableEq, Repr

theorem DispatchReport.note_delivered (r : DispatchReport) (dest : InterfaceId)
    (result : Except AdapterError Delivery) :
    (r.note dest result).delivered = (r.delivered || result.isOk) := by
  unfold delivered
  match result with
  | .ok .sent =>
    have : 0 < r.sent + 1 + r.queued := by omega
    exact (decide_eq_true this).trans (Bool.or_true _).symm
  | .ok .queued =>
    have : 0 < r.sent + (r.queued + 1) := by omega
    exact (decide_eq_true this).trans (Bool.or_true _).symm
  | .error _ => exact (Bool.or_false _).symm

theorem DispatchReport.append_delivered (r s : DispatchReport) :
    (r ++ s).delivered = (r.delivered || s.delivered) := by
  show decide (0 < (r.sent + s.sent) + (r.queued + s.queued)) = _
  unfold delivered
  rw [← Bool.decide_or]
  congr 1
  apply propext
  omega

namespace Stations

variable {s t : Stations} {h : Handover} {hs ks : List Handover} {f : Frame} {now : Instant}
  {x : InterfaceId}

/-- Hands a frame to an adapter, and says whether that sent or queued it. -/
def hand (now : Instant) (h : Handover) (s : Stations) : Except ClockFault (Bool × Stations) :=
  match s.get? h.dest with
  | none => .ok (false, s)
  | some a => do
    let (result, s) ← s.transmit a h.frame (Frame.isControl h.frame) now
    return (result.isOk, s)

/-- Hands over in order, and says so of each. -/
def handAll (now : Instant) : List Handover → Stations → Except ClockFault (List Bool × Stations)
  | [], s => .ok ([], s)
  | h :: hs, s => do
    let (taken, s) ← hand now h s
    let (more, s) ← handAll now hs s
    return (taken :: more, s)

theorem handAll_append : handAll now (hs ++ ks) s = do
    let (taken, s) ← handAll now hs s
    let (more, s) ← handAll now ks s
    return (taken ++ more, s) := by
  induction hs generalizing s with
  | nil =>
    show handAll now ks s = handAll now ks s >>= fun p => .ok ([] ++ p.1, p.2)
    cases handAll now ks s <;> rfl
  | cons h hs ih => simp only [List.cons_append, handAll, ih, bind_assoc, pure_bind]

/-- An adapter that is not addressed is not touched. -/
theorem hand_other {taken : Bool} (hk : hand now h s = .ok (taken, t)) (ho : x ≠ h.dest) :
    t.get? x = s.get? x := by
  unfold hand at hk
  split at hk
  · cases hk
    rfl
  · rename_i a ha
    obtain ⟨⟨result, u⟩, hu, hk⟩ := ok_of_bind hk
    cases hk
    obtain ⟨⟨result, b, p⟩, hb, hu⟩ := ok_of_bind hu
    cases hu
    have howner : b.owner = h.dest :=
      (Adapter.transmit_conserves hb).owner.trans (Keyed.get?_mem ha).2
    refine (Keyed.get?_modify (f := fun _ => b) (fun _ _ => rfl) x).trans ?_
    rw [if_neg (howner ▸ ho)]
    rfl

theorem handAll_other {taken : List Bool} (hk : handAll now hs s = .ok (taken, t))
    (ho : x ∉ hs.map Handover.dest) : t.get? x = s.get? x := by
  induction hs generalizing s taken with
  | nil =>
    cases hk
    rfl
  | cons h hs ih =>
    obtain ⟨hh, hhs⟩ := not_or.1 (mt List.mem_cons.2 ho)
    obtain ⟨⟨first, u⟩, hu, hk⟩ := ok_of_bind hk
    obtain ⟨⟨more, v⟩, hv, hk⟩ := ok_of_bind hk
    cases hk
    exact (ih hv hhs).trans (hand_other hu hh)

/-! ## Computations that hand over -/

/-- A computation carries out handovers. Of its result the outcome counts, which says whether any of
them, or any before, was taken, and what became of the adapters. -/
def Carries {α : Type} (now : Instant) (before : Bool) (hs : List Handover) (s : Stations)
    (x : Except ClockFault α) (outcome : α → Bool × Stations) : Prop :=
  x.map outcome = (handAll now hs s).map fun p => (before || p.1.any id, p.2)

namespace Carries

variable {α β : Type} {before : Bool} {x : Except ClockFault α} {k : α → Except ClockFault β}
  {outcome : α → Bool × Stations} {out : β → Bool × Stations} {a : α}

theorem done (h : outcome a = (before, s)) : Carries now before [] s (.ok a) outcome := by
  show Except.ok (outcome a) = Except.ok (before || false, s)
  rw [h, Bool.or_false]

/-- Both sides fail alike, or both come to a result. -/
theorem alike (hx : Carries now before hs s x outcome) :
    (∃ e, handAll now hs s = .error e ∧ x = .error e) ∨
    ∃ taken t a, handAll now hs s = .ok (taken, t) ∧ x = .ok a ∧
      outcome a = (before || taken.any id, t) := by
  unfold Carries at hx
  cases hh : handAll now hs s with
  | error e =>
    cases x with
    | error e' =>
      rw [hh] at hx
      cases hx
      exact .inl ⟨e, rfl, rfl⟩
    | ok a =>
      rw [hh] at hx
      cases hx
  | ok p =>
    cases x with
    | error e =>
      rw [hh] at hx
      cases hx
    | ok a =>
      rw [hh] at hx
      exact .inr ⟨p.1, p.2, a, rfl, rfl, Except.ok.inj hx⟩

theorem bind (hx : Carries now before hs s x outcome)
    (hk : ∀ a, Carries now (outcome a).1 ks (outcome a).2 (k a) out) :
    Carries now before (hs ++ ks) s (x >>= k) out := by
  unfold Carries
  rw [handAll_append]
  rcases hx.alike with ⟨e, hh, rfl⟩ | ⟨taken, t, a, hh, rfl, ha⟩
  · rw [hh]
    rfl
  · have hka := hk a
    rw [ha] at hka
    rw [hh]
    refine hka.trans ?_
    show _ = Except.map _ (handAll now ks t >>= fun q => .ok (taken ++ q.1, q.2))
    cases handAll now ks t with
    | error e => rfl
    | ok q =>
      show Except.ok ((before || taken.any id) || q.1.any id, q.2) =
        Except.ok (before || (taken ++ q.1).any id, q.2)
      rw [List.any_append, Bool.or_assoc]

/-- What a computation does with its result afterwards is no matter. -/
theorem map (hx : Carries now before hs s x outcome) {g : α → β} (hg : ∀ a, out (g a) = outcome a) :
    Carries now before hs s (x >>= fun a => .ok (g a)) out := by
  refine Eq.trans ?_ hx
  cases x with
  | error e => rfl
  | ok a => exact congrArg Except.ok (hg a)

/-- What was taken before is added to what is taken now. -/
theorem after (hx : Carries now false hs s x outcome) (before : Bool) :
    Carries now before hs s x fun a => (before || (outcome a).1, (outcome a).2) := by
  have hm : ∀ y : Except ClockFault α, y.map (fun a => (before || (outcome a).1, (outcome a).2)) =
      (y.map outcome).map fun p => (before || p.1, p.2) := fun y => by cases y <;> rfl
  unfold Carries
  rw [hm, show x.map outcome = _ from hx]
  cases handAll now hs s with
  | error e => rfl
  | ok p => rfl

theorem absent (hd : s.get? h.dest = none) (hx : Carries now before hs s x outcome) :
    Carries now before (h :: hs) s x outcome := by
  refine Eq.trans hx ?_
  rw [handAll, hand, hd]
  show _ = Except.map _ (handAll now hs s >>= fun q => .ok (false :: q.1, q.2))
  cases handAll now hs s <;> rfl

theorem present {b : Station} {k : Except AdapterError Delivery × Stations → Except ClockFault β}
    (hd : s.get? h.dest = some b)
    (hk : ∀ result t, Carries now (before || result.isOk) hs t (k (result, t)) out) :
    Carries now before (h :: hs) s
      (s.transmit b h.frame (Frame.isControl h.frame) now >>= k) out := by
  unfold Carries
  rw [handAll, hand, hd]
  dsimp only
  cases s.transmit b h.frame (Frame.isControl h.frame) now with
  | error e => rfl
  | ok p =>
    obtain ⟨result, t⟩ := p
    refine (hk result t).trans ?_
    show _ = Except.map _ (handAll now hs t >>= fun q => .ok (result.isOk :: q.1, q.2))
    cases handAll now hs t with
    | error e => rfl
    | ok q =>
      show Except.ok _ = Except.ok (before || (result.isOk || q.1.any id), q.2)
      rw [← Bool.or_assoc]

end Carries

/-- The outcome of a delivery as its report tells it. -/
def told (p : DispatchReport × Stations) : Bool × Stations := (p.1.delivered, p.2)

theorem deliver_carries (ds : List InterfaceId) (r : DispatchReport) (s : Stations) :
    Carries now r.delivered (ds.map (⟨·, f⟩)) s (deliver f (Frame.isControl f) now ds r s) told := by
  induction ds generalizing r s with
  | nil => exact .done rfl
  | cons d ds ih =>
    unfold deliver
    cases hd : s.get? d with
    | none => exact (ih { r with failed := r.failed ++ [d] } s).absent hd
    | some a => exact .present hd fun result t => r.note_delivered d result ▸ ih (r.note d result) t

theorem dispatch_carries (ds : List InterfaceId) (s : Stations) :
    Carries now false (ds.map (⟨·, f⟩)) s (s.dispatch ds f now) told := deliver_carries ds {} s

end Stations

end MulticastRelay
