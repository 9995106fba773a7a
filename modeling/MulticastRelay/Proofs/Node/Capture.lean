import MulticastRelay.Proofs.Adapter.Inlets
import MulticastRelay.Proofs.Node.Order

/-! # Capture

A turn visits the elements of every adapter in order. A visit takes frames from the head of the line
at the element, each into a buffer that is already in hand, and so stops where the pool is dry with the
rest of the line as it was. What was taken runs through ingress when all adapters have been served.
-/
namespace MulticastRelay

namespace Node

/-! ## Receiving -/

section Receiving

variable {e : Element} {f : Frame} {d : Direction} {rest : List (Frame × Direction)}

theorem captureInto_closed (h : e.device.isClosed = true) (space : List UInt8) :
    captureInto e space = (.error (), space, e) := by
  unfold captureInto Element.receive Device.receive
  rw [if_pos h]

theorem captureInto_nil (hc : e.device.isClosed = false) (h : e.device.inbound = [])
    (space : List UInt8) : captureInto e space = (.error (), space, e) := by
  unfold captureInto Element.receive Device.receive
  rw [if_neg (by simp [hc]), h]

theorem captureInto_cons (hc : e.device.isClosed = false) (h : e.device.inbound = (f, d) :: rest)
    (space : List UInt8) : ∃ e', e'.inlet = e.inlet.drop 1 ∧
      captureInto e space = (.ok (if d = .inbound then min f.length space.length else 0),
        f.take (min f.length space.length) ++ space.drop (min f.length space.length), e') := by
  refine ⟨{ e with
    device := { e.device with inbound := rest }
    counters := Element.countReceived e.counters (min f.length space.length) }, ?_, ?_⟩
  · unfold Element.inlet Inlet.drop
    rw [h]
    rfl
  · unfold captureInto Element.receive Device.receive
    rw [if_neg (by simp [hc]), h]
    cases d <;> rfl

/-- A frame received into a buffer is cut to its size, and one on its way out leaves it empty. -/
theorem fillWith_cons (hc : e.device.isClosed = false) (h : e.device.inbound = (f, d) :: rest)
    (b : Buffer) : ∃ c e', e'.inlet = e.inlet.drop 1 ∧
      b.fillWith (captureInto e) = (.ok c.octets.length, c, e') ∧
      c.octets = if d = .inbound then f.take b.frameSize else [] := by
  obtain ⟨e', he, hr⟩ := captureInto_cons hc h b.blank.octets
  have hlen : b.blank.octets.length = b.frameSize := by simp
  rw [hlen] at hr
  let n := if d = .inbound then min f.length b.frameSize else 0
  have hn : min n b.frameSize = n := by
    simp only [n]
    split <;> omega
  let c : Buffer := { b with storage := (b.blank.storage.write
    (f.take (min f.length b.frameSize) ++ b.blank.octets.drop (min f.length b.frameSize))).truncate n }
  have hoctets : c.octets = if d = .inbound then f.take b.frameSize else [] := by
    show Storage.octets _ = _
    rw [Storage.octets_truncate, Storage.octets_write]
    simp only [n]
    split
    · rw [List.take_left' (by simp)]
      rw [List.take_eq_take_iff]
      omega
    · rfl
  refine ⟨c, e', he, ?_, hoctets⟩
  have hcount : c.octets.length = n := by
    rw [hoctets]
    simp only [n]
    split
    · rw [List.length_take, Nat.min_comm]
    · rfl
  unfold Buffer.fillWith
  rw [hr]
  show (Except.ok (min n b.frameSize), ({ b with storage := _ } : Buffer), e') = _
  rw [hn, hcount]

theorem fillWith_error (h : ∀ space, captureInto e space = (.error (), space, e)) (b : Buffer) :
    ∃ c, b.fillWith (captureInto e) = (.error (), c, e) := by
  unfold Buffer.fillWith
  rw [h]
  exact ⟨_, rfl⟩

end Receiving

/-! ## Draining one element -/

/-- Draining an element with a budget takes so many frames. -/
structure Drains (e : Element) (p : Pool) (budget k : Nat) (d : Drained) : Prop where
  within : k ≤ budget
  pending : k ≤ e.inlet.pending.length
  /-- What is taken comes from the head of the line. -/
  inlet : d.element.inlet = e.inlet.drop k
  captured : d.captured.map Buffer.octets = framesOf p.frameSize (e.inlet.pending.take k)
  lent : Adapter.Lent p d.captured.length d.pool
  /-- When a frame was taken there was a buffer beside those that had been filled. -/
  buffer : ∀ j < k, (framesOf p.frameSize (e.inlet.pending.take j)).length < p.available
  closed : e.device.isClosed = true → k = 0
  stops : e.device.isClosed = true ∨ k = budget ∨ k = e.inlet.pending.length ∨
    d.captured.length = p.available

theorem Drains.none {e : Element} {p q : Pool} {budget : Nat} {dry : Bool}
    (hl : Adapter.Lent p 0 q)
    (hs : e.device.isClosed = true ∨ 0 = budget ∨ 0 = e.inlet.pending.length ∨ 0 = p.available) :
    Drains e p budget 0 ⟨[], e, q, dry⟩ where
  within := Nat.zero_le _
  pending := Nat.zero_le _
  inlet := rfl
  captured := rfl
  lent := hl
  buffer := nofun
  closed _ := rfl
  stops := hs

/-- A frame is taken into a buffer that is kept if something of the frame is left. -/
theorem Drains.cons {e e' : Element} {p q : Pool} {budget k : Nat} {d : Drained}
    {x : Frame × Direction} {line : List (Frame × Direction)} (kept : List Buffer)
    (hc : e.device.isClosed = false) (hx : e.inlet.pending = x :: line)
    (he : e'.inlet = e.inlet.drop 1)
    (hk : ∀ xs, framesOf p.frameSize (x :: xs) = kept.map Buffer.octets ++ framesOf p.frameSize xs)
    (hl : Adapter.Lent p kept.length q) (hp : 0 < p.available) (h : Drains e' q budget k d) :
    Drains e p (budget + 1) (k + 1) { d with captured := kept ++ d.captured } := by
  have hline : e'.inlet.pending = line := by rw [he, Inlet.drop, hx]; rfl
  have hopen : e'.device.isClosed = e.device.isClosed := congrArg Inlet.isClosed he
  have hn := hl.available
  have hpending := h.pending
  rw [hline] at hpending
  refine ⟨Nat.succ_le_succ h.within, ?_, ?_, ?_, ⟨?_, ?_⟩, ?_, ?_, ?_⟩
  · rw [hx]
    exact Nat.succ_le_succ hpending
  · rw [h.inlet, he, Inlet.drop_drop]
  · rw [hx, List.take_succ_cons, hk, List.map_append, h.captured, hline, hl.frameSize]
  · exact h.lent.frameSize.trans hl.frameSize
  · have := h.lent.available
    rw [List.length_append]
    dsimp only
    omega
  · intro j hj
    rw [hx]
    cases j with
    | zero => exact hp
    | succ j =>
      have := h.buffer j (Nat.lt_of_succ_lt_succ hj)
      rw [hline, hl.frameSize] at this
      rw [List.take_succ_cons, hk, List.length_append, List.length_map]
      omega
  · intro hclosed
    cases hc.symm.trans hclosed
  · have hs := h.stops
    rw [hopen, hc, hline] at hs
    rw [hc, hx, List.length_cons, List.length_append]
    simp only [Bool.false_eq_true, false_or] at hs ⊢
    omega

/-- Draining takes what there is, as far as the budget and the pool allow. -/
theorem drain_drains (budget : Nat) (e : Element) (p : Pool) :
    ∃ k, Drains e p budget k (drain budget e p) := by
  induction budget generalizing e p with
  | zero => exact ⟨0, .none ⟨rfl, rfl⟩ (.inr (.inl rfl))⟩
  | succ budget ih =>
    unfold drain
    cases ht : p.take? with
    | none =>
      exact ⟨0, .none ⟨rfl, rfl⟩ (.inr (.inr (.inr (Pool.take_eq_none_iff.1 ht).symm)))⟩
    | some x =>
      obtain ⟨buffer, rest⟩ := x
      obtain ⟨hn, -⟩ := Pool.take_available ht
      obtain ⟨hb, hs⟩ := Pool.take_frameSize ht
      dsimp only
      by_cases hc : e.device.isClosed = true
      · obtain ⟨c, hr⟩ := fillWith_error (captureInto_closed hc) buffer
        rw [hr]
        exact ⟨0, .none ⟨hs, (rest.put_available c).trans hn⟩ (.inl hc)⟩
      · rw [Bool.not_eq_true] at hc
        cases hi : e.device.inbound with
        | nil =>
          obtain ⟨c, hr⟩ := fillWith_error (captureInto_nil hc hi) buffer
          rw [hr]
          have : 0 = e.inlet.pending.length := by rw [Element.inlet, hi]; rfl
          exact ⟨0, .none ⟨hs, (rest.put_available c).trans hn⟩ (.inr (.inr (.inl this)))⟩
        | cons x line =>
          obtain ⟨f, d⟩ := x
          obtain ⟨c, e', he, hr, ho⟩ := fillWith_cons hc hi buffer
          have hx : e.inlet.pending = (f, d) :: line := hi
          have hp : 0 < p.available := by omega
          rw [hb] at ho
          rw [hr]
          cases hlen : c.octets.length with
          | zero =>
            obtain ⟨k, hk⟩ := ih e' (rest.put c)
            have hnil := List.eq_nil_of_length_eq_zero hlen
            rw [hnil] at ho
            refine ⟨k + 1, hk.cons [] hc hx he (q := rest.put c) (fun xs => ?_)
              ⟨hs, (rest.put_available c).trans hn⟩ hp⟩
            cases d with
            | inbound =>
              rw [framesOf_inbound, ← show [] = f.take p.frameSize from ho]
              rfl
            | outbound => rfl
          | succ m =>
            obtain ⟨k, hk⟩ := ih e' rest
            refine ⟨k + 1, hk.cons [c] hc hx he (fun xs => ?_) ⟨hs, hn⟩ hp⟩
            cases d with
            | inbound =>
              have hf : c.octets = f.take p.frameSize := ho
              rw [framesOf_inbound, ← hf, if_neg]
              · rfl
              · intro hempty
                rw [List.isEmpty_iff.1 hempty] at hlen
                cases hlen
            | outbound =>
              rw [show c.octets = [] from ho] at hlen
              cases hlen

/-! ## Visits -/

/-- A turn comes to an element. -/
structure Visit where
  owner : InterfaceId
  /-- The element and the pool, as the turn finds them. -/
  element : Element
  pool : Pool

namespace Visit

/-- What the visit does. -/
def drained (v : Visit) : Drained :=
  if v.element.poll.isReadable && v.element.rxEnabled then drain receiveBudget v.element v.pool
  else ⟨[], v.element, v.pool, false⟩

/-- How many frames the visit takes from the line. -/
def taken (v : Visit) : Nat :=
  v.element.inlet.pending.length - v.drained.element.inlet.pending.length

/-- The frames it captures. -/
def frames (v : Visit) : List Frame :=
  framesOf v.pool.frameSize (v.element.inlet.pending.take v.taken)

/-- What is true of every visit. -/
structure Fair (v : Visit) : Prop where
  ready : 0 < v.taken → v.element.poll.isReadable = true ∧ v.element.rxEnabled = true
  budget : v.taken ≤ 64
  pending : v.taken ≤ v.element.inlet.pending.length
  /-- What is taken comes from the head of the line. -/
  left : v.drained.element.inlet = v.element.inlet.drop v.taken
  /-- When a frame is taken there is a buffer beside those that have been filled. -/
  buffer : ∀ j < v.taken,
    (framesOf v.pool.frameSize (v.element.inlet.pending.take j)).length < v.pool.available
  captured : v.drained.captured.map Buffer.octets = v.frames
  lent : Adapter.Lent v.pool v.frames.length v.drained.pool
  /-- A visit to a ready element ends for want of budget, frames or buffers. -/
  stops : v.element.poll.isReadable = true → v.element.rxEnabled = true →
    v.element.device.isClosed = true ∨ v.taken = 64 ∨
      v.taken = v.element.inlet.pending.length ∨ v.frames.length = v.pool.available

theorem taken_of_drains {v : Visit} {budget k : Nat}
    (h : Drains v.element v.pool budget k v.drained) : v.taken = k := by
  have hk := h.pending
  unfold taken
  rw [h.inlet, Inlet.drop, List.length_drop]
  omega

theorem fair (v : Visit) : v.Fair := by
  by_cases hr : (v.element.poll.isReadable && v.element.rxEnabled) = true
  · obtain ⟨k, hk⟩ := drain_drains receiveBudget v.element v.pool
    have hd : v.drained = drain receiveBudget v.element v.pool := if_pos hr
    rw [← hd] at hk
    have ht := taken_of_drains hk
    have hlen : v.drained.captured.length = v.frames.length := by
      unfold frames
      rw [ht, ← hk.captured, List.length_map]
    refine ⟨fun _ => Bool.and_eq_true_iff.1 hr, ht ▸ hk.within, ht ▸ hk.pending, ht ▸ hk.inlet,
      ht ▸ hk.buffer, ?_, hlen ▸ hk.lent, fun _ _ => ?_⟩
    · unfold frames
      rw [ht]
      exact hk.captured
    · rw [ht, ← hlen]
      exact hk.stops
  · have hd : v.drained = ⟨[], v.element, v.pool, false⟩ := if_neg hr
    have ht : v.taken = 0 := by
      unfold taken
      rw [hd, Nat.sub_self]
    have hf : v.frames = [] := by
      unfold frames
      rw [ht]
      rfl
    refine ⟨?_, ?_, ?_, ?_, ?_, ?_, ?_, fun hr' he => absurd (Bool.and_eq_true_iff.2 ⟨hr', he⟩) hr⟩
    · exact fun h => absurd h (by omega)
    · omega
    · omega
    · rw [hd, ht, Inlet.drop_zero]
    · exact fun j hj => absurd hj (by omega)
    · rw [hd, hf]
      rfl
    · rw [hd, hf]
      exact ⟨rfl, rfl⟩

/-- The inlet that the visit leaves. -/
def leaves (v : Visit) : Inlet := v.element.inlet.drop v.taken

/-- The visits to the elements of one adapter, each with the pool that the one before leaves. -/
def along (owner : InterfaceId) : List Element → Pool → List Visit
  | [], _ => []
  | e :: es, pool => ⟨owner, e, pool⟩ :: along owner es (drained ⟨owner, e, pool⟩).pool

variable {owner : InterfaceId} {es : List Element} {p : Pool}

theorem along_inlets : (along owner es p).map (·.element.inlet) = es.map Element.inlet := by
  induction es generalizing p with
  | nil => rfl
  | cons e es ih => rw [along, List.map_cons, List.map_cons, ih]

theorem mem_along {v : Visit} (h : v ∈ along owner es p) :
    v.owner = owner ∧ v.pool.frameSize = p.frameSize := by
  induction es generalizing p with
  | nil => cases h
  | cons e es ih =>
    rcases List.mem_cons.1 h with rfl | h
    · exact ⟨rfl, rfl⟩
    · obtain ⟨ho, hs⟩ := ih h
      exact ⟨ho, hs.trans (fair ⟨owner, e, p⟩).lent.frameSize⟩

end Visit

/-- A pass over elements is a visit to each. -/
structure Swept (owner : InterfaceId) (es : List Element) (p : Pool) (s : Sweep) : Prop where
  captured : s.captured.map Buffer.octets = (Visit.along owner es p).flatMap Visit.frames
  inlets : s.elements.map Element.inlet = (Visit.along owner es p).map Visit.leaves
  frameSize : s.pool.frameSize = p.frameSize

theorem sweep_swept (owner : InterfaceId) (es : List Element) (p : Pool) :
    Swept owner es p (sweep es p) := by
  induction es generalizing p with
  | nil => exact ⟨rfl, rfl, rfl⟩
  | cons e es ih =>
    let v : Visit := ⟨owner, e, p⟩
    have hf := v.fair
    have more := ih v.drained.pool
    have hvisits : Visit.along owner (e :: es) p = v :: Visit.along owner es v.drained.pool := rfl
    have hcaptured : (sweep (e :: es) p).captured =
        v.drained.captured ++ (sweep es v.drained.pool).captured := rfl
    have helements : (sweep (e :: es) p).elements =
        v.drained.element :: (sweep es v.drained.pool).elements := rfl
    have hpool : (sweep (e :: es) p).pool = (sweep es v.drained.pool).pool := rfl
    refine ⟨?_, ?_, ?_⟩
    · rw [hvisits, hcaptured, List.map_append, hf.captured, more.captured, List.flatMap_cons]
    · rw [hvisits, helements, List.map_cons, List.map_cons, hf.left, more.inlets]
      rfl
    · rw [hpool]
      exact more.frameSize.trans hf.lent.frameSize

end Node

/-! ## Adapters left alone -/

namespace Stations

variable {s t u : Stations} {f : Frame} {now : Instant} {id : InterfaceId}

/-- The inlets of the elements of an interface. -/
def inlets (s : Stations) (id : InterfaceId) : List Inlet :=
  match s.get? id with
  | none => []
  | some a => a.inlets

theorem inlets_of_get? {a : Station} (h : s.get? id = some a) : s.inlets id = a.inlets := by
  unfold inlets
  rw [h]

/-- The inlets of interfaces, in order, each with its owner. -/
def waiting (s : Stations) (ids : List InterfaceId) : List (InterfaceId × Inlet) :=
  ids.flatMap fun id => (s.inlets id).map (id, ·)

theorem waiting_congr {ids : List InterfaceId} (h : ∀ id ∈ ids, t.inlets id = s.inlets id) :
    t.waiting ids = s.waiting ids := by
  unfold waiting
  refine List.flatMap_congr fun id hid => ?_
  rw [h id hid]

/-- An adapter put in the place of its owner. -/
theorem inlets_replace {a b : Station} {p : Pool} (ha : s.get? id = some a)
    (hb : b.owner = a.owner) (j : InterfaceId) :
    Stations.inlets { s.replace b with pool := p } j = if j = id then b.inlets else s.inlets j := by
  have howner : b.owner = id := hb.trans (Keyed.get?_mem ha).2
  have hget : Stations.get? { s.replace b with pool := p } j =
      if j = id then some b else s.get? j := by
    refine (Keyed.get?_modify (f := fun _ => b) (fun _ _ => rfl) j).trans ?_
    rw [howner, show Keyed.get? Adapter.owner id s.adapters = some a from ha]
    rfl
  unfold inlets
  rw [hget]
  by_cases hj : j = id
  · rw [if_pos hj, if_pos hj]
  · rw [if_neg hj, if_neg hj]

theorem transmit_inlets {a : Station} {r : Except AdapterError Delivery} {priority : Bool}
    (ha : s.get? id = some a) (h : s.transmit a f priority now = .ok (r, t)) (j : InterfaceId) :
    t.inlets j = s.inlets j := by
  obtain ⟨⟨r, b, p⟩, hb, h⟩ := ok_of_bind h
  cases h
  refine (inlets_replace ha (Adapter.transmit_conserves hb).owner j).trans ?_
  split
  · rename_i hj
    rw [hj, inlets_of_get? ha]
    exact (Adapter.transmit_undisturbed hb).inlets
  · rfl

theorem deliver_inlets {priority : Bool} (ds : List InterfaceId) {r r' : DispatchReport}
    (h : deliver f priority now ds r s = .ok (r', t)) (j : InterfaceId) :
    t.inlets j = s.inlets j := by
  induction ds generalizing r s with
  | nil =>
    cases h
    rfl
  | cons dest ds ih =>
    unfold deliver at h
    split at h
    · exact ih h
    · rename_i a ha
      obtain ⟨⟨result, u⟩, hu, h⟩ := ok_of_bind h
      exact (ih h).trans (transmit_inlets ha hu j)

theorem dispatch_inlets {ds : List InterfaceId} {r : DispatchReport}
    (h : s.dispatch ds f now = .ok (r, t)) (j : InterfaceId) : t.inlets j = s.inlets j :=
  deliver_inlets ds h j

end Stations

namespace Node

variable {n m k u : Node} {id : InterfaceId} {ids : List InterfaceId} {now : Instant} {f : Frame}

theorem relay_inlets {s t : Stations} {tunnelled plain : List InterfaceId} {g : Frame}
    {r : DispatchReport} {expired : Bool}
    (h : relay s tunnelled plain f now = .ok (g, r, expired, t)) (j : InterfaceId) :
    t.inlets j = s.inlets j := by
  rw [relay_eq] at h
  obtain ⟨⟨report, u⟩, hu, h⟩ := ok_of_bind h
  have ht := Stations.dispatch_inlets hu j
  dsimp only at h
  split at h
  · cases h
    exact ht
  · split at h
    · cases h
      exact ht
    · obtain ⟨⟨more, v⟩, hv, h⟩ := ok_of_bind h
      cases h
      exact (Stations.dispatch_inlets hv j).trans ht

/-- What ingress does to inlets and to the count of frames received. -/
theorem ingress_counts {r : Bool × Frame} (h : n.ingress id f now = .ok (r, m)) :
    (∀ j, m.stations.inlets j = n.stations.inlets j) ∧
      m.counters.framesReceived = n.counters.framesReceived + 1 := by
  unfold ingress at h
  dsimp only at h
  split at h
  · cases h
    exact ⟨fun _ => rfl, rfl⟩
  · cases h
    exact ⟨fun _ => rfl, rfl⟩
  · cases h
    exact ⟨fun _ => rfl, rfl⟩
  · cases h
    exact ⟨fun _ => rfl, rfl⟩
  · cases h
    exact ⟨fun _ => rfl, rfl⟩
  · obtain ⟨⟨g, report, expired, stations⟩, hs, h⟩ := ok_of_bind h
    have hi := relay_inlets hs
    dsimp only at h
    split at h
    · cases h
      exact ⟨hi, rfl⟩
    · split at h
      · cases h
        exact ⟨hi, rfl⟩
      · cases h
        exact ⟨hi, rfl⟩

/-! ## Serving adapters -/

/-- The visits of a turn to the elements of an interface. -/
def visitsAt (n : Node) (now : Instant) (id : InterfaceId) : List Visit :=
  match n.station? id with
  | none => []
  | some a =>
    match a.onTimer n.stations.pool now with
    | .ok (_, a, pool) => Visit.along id a.elements pool
    | .error _ => []

/-- The visits of a turn to the elements of interfaces, in order. -/
def visitsOf (now : Instant) : List InterfaceId → Node → List Visit
  | [], _ => []
  | id :: ids, n => n.visitsAt now id ++
    match n.serve id now with
    | .ok (_, m) => visitsOf now ids m
    | .error _ => []

/-- Serving an adapter visits each of its elements, and touches no other adapter. -/
structure Serves (n : Node) (now : Instant) (id : InterfaceId) (captured : List Buffer) (m : Node) :
    Prop where
  captured : captured.map Buffer.octets = (n.visitsAt now id).flatMap Visit.frames
  visits : ∀ v ∈ n.visitsAt now id, v.owner = id ∧ v.pool.frameSize = n.stations.pool.frameSize
  before : n.stations.inlets id = (n.visitsAt now id).map (·.element.inlet)
  after : m.stations.inlets id = (n.visitsAt now id).map Visit.leaves
  others : ∀ j ≠ id, m.stations.inlets j = n.stations.inlets j
  frameSize : m.stations.pool.frameSize = n.stations.pool.frameSize
  received : m.counters.framesReceived = n.counters.framesReceived

/-- What service comes to for an adapter that there is. -/
theorem serve_course {a : Station} {captured : List Buffer} (ha : n.station? id = some a)
    (h : n.serve id now = .ok (captured, m)) : ∃ fired b p d r,
      a.onTimer n.stations.pool now = .ok (fired, b, p) ∧
      captured = (sweep b.elements p).captured ∧
      Adapter.Undisturbed { b with composite.elements := (sweep b.elements p).elements }
        (sweep b.elements p).pool d r ∧
      d.owner = a.owner ∧ m.stations = { n.stations.replace d with pool := r } ∧
      m.counters.framesReceived = n.counters.framesReceived := by
  unfold serve at h
  rw [ha] at h
  obtain ⟨⟨fired, b, p⟩, hb, h⟩ := ok_of_bind h
  dsimp only at h
  have hbo : b.owner = a.owner := (Adapter.onTimer_conserves (i := 0) hb).owner
  split at h
  all_goals
    obtain ⟨⟨c, q⟩, hc, h⟩ := ok_of_bind h
    have told : c.owner = b.owner ∧
        Adapter.Undisturbed { b with composite.elements := (sweep b.elements p).elements }
          (sweep b.elements p).pool c q := by
      first
      | exact ⟨(Adapter.onOutputReady_conserves (i := 0) hc).owner,
          Adapter.onOutputReady_undisturbed hc⟩
      | (cases hc; exact ⟨rfl, .of_inlets rfl⟩)
    dsimp only at h
    split at h
    all_goals
      obtain ⟨⟨d, r⟩, hd, h⟩ := ok_of_bind h
      have fed : d.owner = c.owner ∧ Adapter.Undisturbed c q d r := by
        first
        | exact ⟨(Adapter.onSourceReady_conserves (i := 0) hd).owner,
            Adapter.onSourceReady_undisturbed hd⟩
        | (cases hd; exact ⟨rfl, .of_inlets rfl⟩)
      cases h
      exact ⟨fired, b, p, d, r, hb, rfl, told.2.trans fed.2, (fed.1.trans told.1).trans hbo, rfl, rfl⟩

theorem serve_serves {captured : List Buffer} (h : n.serve id now = .ok (captured, m)) :
    Serves n now id captured m := by
  cases ha : n.station? id with
  | none =>
    have hvisits : n.visitsAt now id = [] := by
      unfold visitsAt
      rw [ha]
    have hinlets : n.stations.inlets id = [] := by
      unfold Stations.inlets
      rw [show n.stations.get? id = none from ha]
    unfold serve at h
    rw [ha] at h
    cases h
    refine ⟨?_, ?_, ?_, ?_, fun _ _ => rfl, rfl, rfl⟩
    · rw [hvisits]
      rfl
    · rw [hvisits]
      exact fun _ hv => absurd hv List.not_mem_nil
    · rw [hvisits]
      exact hinlets
    · rw [hvisits]
      exact hinlets
  | some a =>
    obtain ⟨fired, b, p, d, r, hb, rfl, hserved, ho, hm, hreceived⟩ := serve_course ha h
    have hvisits : n.visitsAt now id = Visit.along id b.elements p := by
      unfold visitsAt
      rw [ha]
      dsimp only
      rw [hb]
    have timed := Adapter.onTimer_undisturbed hb
    have swept := sweep_swept id b.elements p
    have hafter := Stations.inlets_replace (p := r) ha ho
    refine ⟨?_, fun v hv => ?_, ?_, ?_, fun j hj => ?_, ?_, hreceived⟩
    · rw [hvisits]
      exact swept.captured
    · rw [hvisits] at hv
      obtain ⟨hv, hs⟩ := Visit.mem_along hv
      exact ⟨hv, hs.trans timed.frameSize⟩
    · rw [Stations.inlets_of_get? ha, ← timed.inlets, hvisits, Visit.along_inlets]
      rfl
    · rw [hm, hafter, if_pos rfl, hserved.inlets, hvisits]
      exact swept.inlets
    · rw [hm, hafter, if_neg hj]
    · rw [hm]
      exact hserved.frameSize.trans (swept.frameSize.trans timed.frameSize)

/-- Serving interfaces visits each element of each, and touches no other adapter. -/
structure ServesAll (n : Node) (now : Instant) (ids : List InterfaceId)
    (captured : List (InterfaceId × Buffer)) (m : Node) : Prop where
  captured : captured.map (fun x => (x.1, x.2.octets)) =
    (visitsOf now ids n).flatMap fun v => v.frames.map (v.owner, ·)
  frameSize : ∀ v ∈ visitsOf now ids n, v.pool.frameSize = n.stations.pool.frameSize
  before : n.stations.waiting ids =
    (visitsOf now ids n).map fun v => (v.owner, v.element.inlet)
  after : m.stations.waiting ids = (visitsOf now ids n).map fun v => (v.owner, v.leaves)
  others : ∀ j ∉ ids, m.stations.inlets j = n.stations.inlets j
  received : m.counters.framesReceived = n.counters.framesReceived

/-- Visits to one interface, as they are entered in a list of visits to several. -/
theorem map_owner {β : Type} {vs : List Visit} (h : ∀ v ∈ vs, v.owner = id) (g : Visit → β)
    {xs : List β} (hx : xs = vs.map g) :
    xs.map (id, ·) = vs.map fun v => (v.owner, g v) := by
  rw [hx, List.map_map]
  refine List.map_congr_left fun v hv => ?_
  rw [h v hv]
  rfl

theorem serveAll_serves {captured : List (InterfaceId × Buffer)} (hn : ids.Nodup)
    (h : n.serveAll now ids = .ok (captured, m)) : ServesAll n now ids captured m := by
  induction ids generalizing n captured with
  | nil =>
    cases h
    exact ⟨rfl, fun _ hv => absurd hv List.not_mem_nil, rfl, rfl, fun _ _ => rfl, rfl⟩
  | cons id ids ih =>
    obtain ⟨hid, hn⟩ := List.nodup_cons.1 hn
    obtain ⟨⟨first, k⟩, hk, h⟩ := ok_of_bind h
    obtain ⟨⟨more, l⟩, hl, h⟩ := ok_of_bind h
    cases h
    have hs := serve_serves hk
    have hrest := ih hn hl
    have hvisits : visitsOf now (id :: ids) n = n.visitsAt now id ++ visitsOf now ids k := by
      rw [visitsOf, hk]
    have howner : ∀ v ∈ n.visitsAt now id, v.owner = id := fun v hv => (hs.visits v hv).1
    have hothers : ∀ j ∈ ids, k.stations.inlets j = n.stations.inlets j :=
      fun j hj => hs.others j fun he => hid (he ▸ hj)
    refine ⟨?_, fun v hv => ?_, ?_, ?_, fun j hj => ?_, hrest.received.trans hs.received⟩
    · have hfirst : (first.map (id, ·)).map (fun x => (x.1, x.2.octets)) =
          (n.visitsAt now id).flatMap fun v => v.frames.map (v.owner, ·) := by
        rw [List.map_map, show (fun x : InterfaceId × Buffer => (x.1, x.2.octets)) ∘ (id, ·) =
          (id, ·) ∘ Buffer.octets from rfl, ← List.map_map, hs.captured, List.map_flatMap]
        refine List.flatMap_congr fun v hv => ?_
        rw [howner v hv]
      rw [hvisits, List.map_append, List.flatMap_append, hfirst, hrest.captured]
    · rw [hvisits] at hv
      rcases List.mem_append.1 hv with hv | hv
      · exact (hs.visits v hv).2
      · exact (hrest.frameSize v hv).trans hs.frameSize
    · rw [hvisits, List.map_append, ← hrest.before, Stations.waiting_congr hothers,
        ← map_owner howner _ hs.before]
      rfl
    · rw [hvisits, List.map_append, ← hrest.after, ← map_owner howner _ hs.after,
        ← hrest.others id hid]
      rfl
    · obtain ⟨hne, hj⟩ := not_or.1 (mt List.mem_cons.2 hj)
      exact (hrest.others j hj).trans (hs.others j hne)

/-! ## Turns -/

/-- Frames run through ingress one after the other, each from a buffer that goes back to the pool
before the next. -/
inductive Ingresses (now : Instant) : Node → List (InterfaceId × Frame) → Node → Prop where
  | done (n : Node) : Ingresses now n [] n
  | next {n k m : Node} {id : InterfaceId} {b : Buffer} {rest : List (InterfaceId × Frame)}
      {r : Bool × Frame} : n.ingress id b.octets now = .ok (r, k) →
      Ingresses now (k.putBuffer b) rest m → Ingresses now n ((id, b.octets) :: rest) m

theorem ingressAll_ingresses {captured : List (InterfaceId × Buffer)}
    (h : n.ingressAll now captured = .ok m) :
    Ingresses now n (captured.map fun x => (x.1, x.2.octets)) m := by
  induction captured generalizing n with
  | nil =>
    cases h
    exact .done _
  | cons x rest ih =>
    obtain ⟨⟨r, k⟩, hk, h⟩ := ok_of_bind h
    exact .next hk (ih h)

theorem Ingresses.counts {frames : List (InterfaceId × Frame)} (h : Ingresses now n frames m) :
    (∀ j, m.stations.inlets j = n.stations.inlets j) ∧
      m.counters.framesReceived = n.counters.framesReceived + frames.length := by
  induction h with
  | done => exact ⟨fun _ => rfl, rfl⟩
  | next hk _ ih =>
    obtain ⟨hi, hr⟩ := ingress_counts hk
    refine ⟨fun j => (ih.1 j).trans (hi j), ih.2.trans ?_⟩
    rw [List.length_cons, Nat.add_comm _ 1, ← Nat.add_assoc]
    exact congrArg (· + _) hr

/-- The visits of a turn. -/
def visits (n : Node) (now : Instant) : List Visit := visitsOf now n.stations.owners n

/-- What a turn captures, in order. -/
def captures (n : Node) (now : Instant) : List (InterfaceId × Frame) :=
  (n.visits now).flatMap fun v => v.frames.map (v.owner, ·)

/-- What a turn comes to that returns a count. -/
structure Turn (n : Node) (now : Instant) (count : Nat) (m : Node) : Prop where
  /-- Each element of each interface is visited once, in order, and found with the line that it had
  when the turn began. -/
  order : (n.visits now).map (fun v => (v.owner, v.element.inlet)) =
    n.stations.waiting n.stations.owners
  fair : ∀ v ∈ n.visits now, v.Fair
  frameSize : ∀ v ∈ n.visits now, v.pool.frameSize = n.stations.pool.frameSize
  /-- What no visit took is still waiting when the turn is over. -/
  left : m.stations.waiting m.stations.owners = (n.visits now).map fun v => (v.owner, v.leaves)
  /-- All adapters are served before the first frame runs through ingress. -/
  ingress : ∃ captured served, n.serveAll now n.stations.owners = .ok (captured, served) ∧
    Ingresses now served (n.captures now) m
  returned : count = (n.captures now).length
  received : m.counters.framesReceived = n.counters.framesReceived + count

theorem poll_turn {count : Nat} (hn : n.stations.owners.Nodup)
    (h : n.poll now = .ok (count, m)) : n.Turn now count m := by
  have howners := (poll_roster h).owners
  obtain ⟨⟨captured, u⟩, hu, h⟩ := ok_of_bind h
  obtain ⟨l, hl, h⟩ := ok_of_bind h
  cases h
  have hserved := serveAll_serves hn hu
  have hcaptures : captured.map (fun x => (x.1, x.2.octets)) = n.captures now := hserved.captured
  have hingress := ingressAll_ingresses hl
  rw [hcaptures] at hingress
  obtain ⟨hi, hr⟩ := hingress.counts
  have hcount : captured.length = (n.captures now).length := by
    rw [← hcaptures, List.length_map]
  refine ⟨hserved.before.symm, fun v _ => v.fair, hserved.frameSize, ?_, ⟨captured, u, hu, hingress⟩,
    hcount, ?_⟩
  · rw [howners, Stations.waiting_congr fun id _ => hi id]
    exact hserved.after
  · rw [hr, hserved.received, hcount]

/-- In every run a turn visits the elements of the interfaces in ascending order, takes frames only
into buffers it holds, and runs each that it captured through ingress once, after all visits. -/
theorem poll_captures {count : Nat} (h : Reachable n) (hm : n.poll now = .ok (count, m)) :
    n.Ordered ∧ n.Turn now count m :=
  ⟨reachable_ordered h, poll_turn (reachable_ordered h).nodup hm⟩

/-- The frames that wait at each element. -/
def lines (n : Node) : List (List (Frame × Direction)) :=
  (n.stations.waiting n.stations.owners).map (·.2.pending)

/-- Three buffers of four octets: the second interface runs out of them with one frame left, having
cut one frame and passed over one that was on its way out and one without content. -/
theorem short_pool_captures : ∃ n m : Node, Reachable n ∧ n.poll 0 = .ok (3, m) ∧
    (n.captures 0 = [(⟨1⟩, [5]), (⟨2⟩, [1, 2, 3, 4]), (⟨2⟩, [7, 7])] ∧
      m.lines = [[], [([8], .inbound)]]) ∧
    n.Ordered ∧ n.Turn 0 3 m := by
  have fresh : Reachable (new { poolSize := 3, frameSize := 4 }) := .new _
  have linked := fresh.next (.setLinks [⟨"eth1", 2, true⟩, ⟨"eth0", 1, true⟩]) rfl
  have grouped := linked.next (.addGroup "lan" .merge .classicalFlooding) rfl
  have entered := grouped.next (.addMember "lan" "eth1" .destination) rfl
  have joined := entered.next (.addMember "lan" "eth0" .destination) rfl
  have filled := joined.next (.channels fun d => if d.name = "eth0"
    then { d with inbound := [([5], .inbound)] }
    else { d with inbound := [([1, 2, 3, 4, 5, 6], .inbound), ([9], .outbound), ([], .inbound),
      ([7, 7], .inbound), ([8], .inbound)] }) rfl
  obtain ⟨n, hn, hcaptures, hshown⟩ : ∃ n : Node, Reachable n ∧
      n.captures 0 = [(⟨1⟩, [5]), (⟨2⟩, [1, 2, 3, 4]), (⟨2⟩, [7, 7])] ∧
      (n.poll 0).toOption.map (fun x => (x.1, x.2.lines)) = some (3, [[], [([8], .inbound)]]) :=
    ⟨_, filled, by decide +kernel, by decide +kernel⟩
  obtain ⟨⟨count, m⟩, hm, hleft⟩ := ok_of_shown hshown
  obtain ⟨rfl, hleft⟩ := Prod.mk.inj hleft
  exact ⟨n, m, hn, hm, ⟨hcaptures, hleft⟩, poll_captures hn hm⟩

end Node
end MulticastRelay
