import MulticastRelay.Proofs.Node.Handover
import MulticastRelay.Proofs.Adapter.Storage

/-! # Destinations apart

Delivery hands one frame to several adapters that share a pool. An adapter takes at most one buffer,
so while there is a buffer for each destination none can tell whether others were served before it:
each ends as if it alone had been given the frame, and the order of the destinations is no matter.
-/
namespace MulticastRelay

theorem DispatchReport.note_eq (r : DispatchReport) (dest : InterfaceId)
    (answer : Except AdapterError Delivery) :
    r.note dest answer =
      ⟨r.sent + if answer.toOption = some .sent then 1 else 0,
        r.queued + if answer.toOption = some .queued then 1 else 0,
        r.failed ++ if answer.toOption = none then [dest] else []⟩ := by
  match answer with
  | .ok .sent => simp [note, Except.toOption]
  | .ok .queued => simp [note, Except.toOption]
  | .error _ => simp [note, Except.toOption]

namespace Stations

variable {s t u : Stations} {f : Frame} {now : Instant} {id dest : InterfaceId}
  {ds ks : List InterfaceId} {r r' : DispatchReport}

/-- How the adapter of a destination, if there is one, answers a frame and is left, when no other
adapter is given the frame. -/
def alone (s : Stations) (f : Frame) (now : Instant) (dest : InterfaceId) :
    Except ClockFault (Option (Except AdapterError Delivery × Station)) :=
  match s.get? dest with
  | none => .ok none
  | some a => ((a.transmit s.pool f (Frame.isControl f) now).map Adapter.shown).map some

/-- The delivery that a destination alone makes of a frame. There is none if the destination has no
adapter, or its adapter answers with an error. -/
def delivery? (s : Stations) (f : Frame) (now : Instant) (dest : InterfaceId) : Option Delivery :=
  match s.alone f now dest with
  | .ok (some (.ok d, _)) => some d
  | _ => none

/-- What delivery to a list of destinations makes of a report and of the adapters. -/
structure Apart (s : Stations) (f : Frame) (now : Instant) (ds : List InterfaceId)
    (r r' : DispatchReport) (t : Stations) : Prop where
  listed : ∀ id ∈ ds, ∃ answer,
    s.alone f now id = .ok ((t.get? id).map fun a => (answer, a.seen))
  others : ∀ id ∉ ds, t.get? id = s.get? id
  sent : r'.sent = r.sent + ds.countP (s.delivery? f now · = some .sent)
  queued : r'.queued = r.queued + ds.countP (s.delivery? f now · = some .queued)
  failed : r'.failed = r.failed ++ ds.filter (s.delivery? f now · = none)

/-! ## One destination -/

theorem alone_of_absent (h : s.get? dest = none) (f : Frame) (now : Instant) :
    s.alone f now dest = .ok none := by
  unfold alone
  rw [h]

/-- What delivery to one destination leaves is no matter to another, if there is a buffer for it. -/
theorem alone_congr (hg : t.get? id = s.get? id) (ht : 0 < t.pool.available)
    (hs : 0 < s.pool.available) (hf : t.pool.frameSize = s.pool.frameSize) :
    t.alone f now id = s.alone f now id := by
  unfold alone
  rw [hg]
  cases s.get? id with
  | none => rfl
  | some a =>
    exact congrArg (Except.map some) (Adapter.transmit_shown ht hs hf a f (Frame.isControl f) now)

theorem delivery_congr (h : t.alone f now id = s.alone f now id) :
    t.delivery? f now id = s.delivery? f now id := by
  unfold delivery?
  rw [h]

/-- What handing a frame to the adapter of one destination does. -/
structure Served (s : Stations) (f : Frame) (now : Instant) (dest : InterfaceId)
    (answer : Except AdapterError Delivery) (t : Stations) : Prop where
  alone : s.alone f now dest = .ok ((t.get? dest).map fun a => (answer, a.seen))
  delivery : s.delivery? f now dest = answer.toOption
  others : ∀ id ≠ dest, t.get? id = s.get? id
  lent : ∃ n ≤ 1, Adapter.Lent s.pool n t.pool

theorem transmit_served {a : Station} {answer : Except AdapterError Delivery}
    (ha : s.get? dest = some a)
    (h : s.transmit a f (Frame.isControl f) now = .ok (answer, t)) :
    Served s f now dest answer t := by
  obtain ⟨⟨answer, b, p⟩, hb, h⟩ := ok_of_bind h
  cases h
  have howner : b.owner = dest := (Adapter.transmit_conserves hb).owner.trans (Keyed.get?_mem ha).2
  have hget : ∀ id, Stations.get? { s.replace b with pool := p } id =
      if id = dest then some b else s.get? id := by
    intro id
    refine (Keyed.get?_modify (f := fun _ => b) (fun _ _ => rfl) id).trans ?_
    rw [howner]
    split
    · rw [show Keyed.get? Adapter.owner dest s.adapters = some a from ha]
      rfl
    · rfl
  have halone : s.alone f now dest = .ok (some (answer, b.seen)) := by
    unfold alone
    rw [ha]
    dsimp only
    rw [hb]
    rfl
  refine ⟨?_, ?_, fun id hid => ?_, Adapter.kept answer, Adapter.kept_le_one answer,
    Adapter.transmit_lent hb⟩
  · rw [hget, if_pos rfl]
    exact halone
  · unfold delivery?
    rw [halone]
    cases answer <;> rfl
  · rw [hget, if_neg hid]

/-! ## A list of destinations -/

namespace Apart

theorem nil : Apart s f now [] r r s where
  listed := nofun
  others _ _ := rfl
  sent := rfl
  queued := rfl
  failed := (List.append_nil _).symm

/-- A destination without adapter only fails. -/
theorem absent (hd : s.get? dest = none) (hn : dest ∉ ds)
    (h : Apart s f now ds { r with failed := r.failed ++ [dest] } r' t) :
    Apart s f now (dest :: ds) r r' t := by
  have halone := alone_of_absent hd f now
  have hnone : s.delivery? f now dest = none := by
    unfold delivery?
    rw [halone]
  refine ⟨?_, ?_, ?_, ?_, ?_⟩
  · intro id hid
    rcases List.mem_cons.1 hid with rfl | hid
    · refine ⟨.error .noElements, ?_⟩
      rw [h.others _ hn, hd]
      exact halone
    · exact h.listed id hid
  · exact fun id hid => h.others id fun hm => hid (List.mem_cons_of_mem _ hm)
  · rw [h.sent, List.countP_cons, hnone]
    simp
  · rw [h.queued, List.countP_cons, hnone]
    simp
  · rw [h.failed, List.filter_cons, hnone]
    simp

/-- A destination that was served, and then the others as they take the frame alone. -/
theorem cons {answer : Except AdapterError Delivery} (hd : Served s f now dest answer u)
    (hn : dest ∉ ds) (hs : ∀ id ∈ ds, u.alone f now id = s.alone f now id)
    (h : Apart u f now ds (r.note dest answer) r' t) :
    Apart s f now (dest :: ds) r r' t := by
  have hds : ∀ id ∈ ds, u.delivery? f now id = s.delivery? f now id :=
    fun id hid => delivery_congr (hs id hid)
  have hcount : ∀ d, ds.countP (u.delivery? f now · = some d) =
      ds.countP (s.delivery? f now · = some d) := by
    intro d
    refine List.countP_congr fun id hid => ?_
    rw [hds id hid]
  have hfilter : ds.filter (u.delivery? f now · = none) =
      ds.filter (s.delivery? f now · = none) := by
    refine List.filter_congr fun id hid => ?_
    rw [hds id hid]
  refine ⟨?_, ?_, ?_, ?_, ?_⟩
  · intro id hid
    rcases List.mem_cons.1 hid with rfl | hid
    · refine ⟨answer, ?_⟩
      rw [h.others _ hn]
      exact hd.alone
    · rw [← hs id hid]
      exact h.listed id hid
  · intro id hid
    obtain ⟨hid, hm⟩ := not_or.1 (mt List.mem_cons.2 hid)
    exact (h.others id hm).trans (hd.others id hid)
  · rw [h.sent, hcount, DispatchReport.note_eq, List.countP_cons, hd.delivery]
    simp only [decide_eq_true_eq]
    omega
  · rw [h.queued, hcount, DispatchReport.note_eq, List.countP_cons, hd.delivery]
    simp only [decide_eq_true_eq]
    omega
  · rw [h.failed, hfilter, DispatchReport.note_eq, List.filter_cons, hd.delivery]
    cases answer.toOption <;> simp

end Apart

/-- Delivery faults where a destination alone does, and otherwise treats each as if it were alone. -/
theorem deliver_apart (r : DispatchReport) (f : Frame) (now : Instant) (hn : ds.Nodup)
    (hp : ds.length ≤ s.pool.available) :
    ((∃ e, deliver f (Frame.isControl f) now ds r s = .error e) ∧
      ∃ id ∈ ds, ∃ e, s.alone f now id = .error e) ∨
    ∃ r' t, deliver f (Frame.isControl f) now ds r s = .ok (r', t) ∧ Apart s f now ds r r' t := by
  induction ds generalizing s r with
  | nil => exact .inr ⟨r, s, rfl, .nil⟩
  | cons dest ds ih =>
    obtain ⟨hdest, hn⟩ := List.nodup_cons.1 hn
    rw [List.length_cons] at hp
    unfold deliver
    cases ha : s.get? dest with
    | none =>
      obtain ⟨he, id, hid, hx⟩ | ⟨r', t, ht, h⟩ :=
        ih (s := s) (r := { r with failed := r.failed ++ [dest] }) hn (by omega)
      · exact .inl ⟨he, id, List.mem_cons_of_mem _ hid, hx⟩
      · exact .inr ⟨r', t, ht, h.absent ha hdest⟩
    | some a =>
      dsimp only
      cases hu : s.transmit a f (Frame.isControl f) now with
      | error e =>
        refine .inl ⟨⟨e, rfl⟩, dest, List.mem_cons_self, e, ?_⟩
        unfold alone
        rw [ha]
        dsimp only
        unfold transmit at hu
        cases hx : a.transmit s.pool f (Frame.isControl f) now with
        | error e' =>
          rw [hx] at hu
          cases hu
          rfl
        | ok x =>
          rw [hx] at hu
          cases hu
      | ok x =>
        obtain ⟨answer, u⟩ := x
        have hd := transmit_served ha hu
        obtain ⟨n, hn1, hlent⟩ := hd.lent
        have havail := hlent.available
        -- Of the buffers there is still one for each destination to come.
        have hs : ∀ id ∈ ds, u.alone f now id = s.alone f now id := by
          intro id hid
          have : 0 < ds.length := List.length_pos_of_mem hid
          have hne : id ≠ dest := fun h => hdest (h ▸ hid)
          exact alone_congr (hd.others id hne) (by omega) (by omega) hlent.frameSize
        obtain ⟨he, id, hid, e, hx⟩ | ⟨r', t, ht, h⟩ :=
          ih (s := u) (r := r.note dest answer) hn (by omega)
        · exact .inl ⟨he, id, List.mem_cons_of_mem _ hid, e, hs id hid ▸ hx⟩
        · exact .inr ⟨r', t, ht, h.cons hd hdest hs⟩

namespace Apart

theorem total (h : Apart s f now ds {} r t) : r.sent + r.queued + r.failed.length = ds.length := by
  rw [h.sent, h.queued, h.failed]
  clear h
  induction ds with
  | nil => rfl
  | cons id ds ih =>
    simp only [List.countP_cons, List.filter_cons, List.length_cons] at ih ⊢
    match s.delivery? f now id with
    | none => simp at ih ⊢; omega
    | some .sent => simp at ih ⊢; omega
    | some .queued => simp at ih ⊢; omega

/-- What becomes of a list of destinations becomes of them in any other order. -/
theorem perm (h : Apart s f now ds {} r t) (h' : Apart s f now ks {} r' u) (hp : ks.Perm ds) :
    (∀ id, (u.get? id).map Adapter.seen = (t.get? id).map Adapter.seen) ∧
      r'.sent = r.sent ∧ r'.queued = r.queued ∧ r'.failed.Perm r.failed := by
  refine ⟨fun id => ?_, ?_, ?_, ?_⟩
  · by_cases hid : id ∈ ds
    · obtain ⟨answer, ht⟩ := h.listed id hid
      obtain ⟨answer', hu⟩ := h'.listed id (hp.mem_iff.2 hid)
      have he := congrArg (Option.map Prod.snd) (Except.ok.inj (hu.symm.trans ht))
      simpa only [Option.map_map, Function.comp_def] using he
    · rw [h.others id hid, h'.others id (mt hp.mem_iff.1 hid)]
  · rw [h.sent, h'.sent, hp.countP_eq]
  · rw [h.queued, h'.queued, hp.countP_eq]
  · rw [h.failed, h'.failed]
    exact hp.filter _

end Apart

/-- What delivery to a list of destinations comes to when they do not affect each other. Adapters are
compared less the storage that their buffers hold out of sight. -/
structure Isolated (s : Stations) (f : Frame) (now : Instant) (ds : List InterfaceId)
    (r : DispatchReport) (t : Stations) : Prop where
  /-- Each destination is left as the frame alone would leave it. -/
  listed : ∀ id ∈ ds, ∃ answer,
    s.alone f now id = .ok ((t.get? id).map fun a => (answer, a.seen))
  others : ∀ id ∉ ds, t.get? id = s.get? id
  sent : r.sent = ds.countP (s.delivery? f now · = some .sent)
  queued : r.queued = ds.countP (s.delivery? f now · = some .queued)
  failed : r.failed = ds.filter (s.delivery? f now · = none)
  total : r.sent + r.queued + r.failed.length = ds.length
  /-- The order of the destinations is no matter. -/
  permuted : ∀ ks : List InterfaceId, ks.Perm ds → ∃ r' t', s.dispatch ks f now = .ok (r', t') ∧
    (∀ id, (t'.get? id).map Adapter.seen = (t.get? id).map Adapter.seen) ∧
    r'.sent = r.sent ∧ r'.queued = r.queued ∧ r'.failed.Perm r.failed

/-- While the pool has a buffer for each of the distinct destinations they do not affect each other,
and the clock is at fault for all of them only if it is for one alone. -/
theorem dispatch_isolated (s : Stations) (f : Frame) (now : Instant) (ds : List InterfaceId)
    (hn : ds.Nodup) (hp : ds.length ≤ s.pool.available) :
    ((∃ e, s.dispatch ds f now = .error e) ↔ ∃ id ∈ ds, ∃ e, s.alone f now id = .error e) ∧
      ∀ r t, s.dispatch ds f now = .ok (r, t) → s.Isolated f now ds r t := by
  obtain ⟨⟨e, he⟩, id, hid, hx⟩ | ⟨r, t, ht, h⟩ := deliver_apart {} f now hn hp
  · refine ⟨⟨fun _ => ⟨id, hid, hx⟩, fun _ => ⟨e, he⟩⟩, fun r t ht => ?_⟩
    cases he.symm.trans ht
  · refine ⟨⟨?_, ?_⟩, fun r₀ t₀ ht₀ => ?_⟩
    · rintro ⟨e, he⟩
      cases he.symm.trans ht
    · rintro ⟨id, hid, e, he⟩
      obtain ⟨answer, ha⟩ := h.listed id hid
      cases he.symm.trans ha
    · cases ht.symm.trans ht₀
      refine
        { listed := h.listed
          others := h.others
          sent := by simpa using h.sent
          queued := by simpa using h.queued
          failed := by simpa using h.failed
          total := h.total
          permuted := fun ks hk => ?_ }
      obtain ⟨-, id, hid, e, he⟩ | ⟨r', u, hu, h'⟩ :=
        deliver_apart {} f now (hk.nodup_iff.2 hn) (hk.length_eq ▸ hp)
      · obtain ⟨answer, ha⟩ := h.listed id (hk.mem_iff.1 hid)
        cases he.symm.trans ha
      · exact ⟨r', u, hu, h.perm h' hk⟩

/-- Of four channels the first takes frames, two are full and the fourth is out of order, where
nothing is queued. The next buffers of the pool have been used before. -/
def mixed : Stations where
  adapters :=
    [{ Adapter.new ⟨1⟩ "eth1" with composite.elements := [.new { name := "eth1" }] },
      { Adapter.new ⟨2⟩ "eth2" with
        composite.elements := [.new { name := "eth2", script := [.block] }]
        queue := .new .unbounded },
      { Adapter.new ⟨3⟩ "eth3" with
        composite.elements := [.new { name := "eth3", script := [.block] }]
        queue := .new (.bounded 1) },
      { Adapter.new ⟨4⟩ "eth4" with
        composite.elements := [.new { name := "eth4", script := [.fail] }] }]
  pool := { Pool.new 5 4 with returned := [⟨[8, 8, 8, 8], 0⟩, ⟨[9, 9, 9, 9], 0⟩] }

/-- One destination sends, two queue, and two fail, one for want of an adapter. Another order gives
the two that queue each other's buffers, and nothing more. -/
theorem mixed_isolated :
    ∃ r t r' t', mixed.dispatch [⟨4⟩, ⟨9⟩, ⟨3⟩, ⟨2⟩, ⟨1⟩] [7] 0 = .ok (r, t) ∧
      mixed.dispatch [⟨1⟩, ⟨2⟩, ⟨3⟩, ⟨4⟩, ⟨9⟩] [7] 0 = .ok (r', t') ∧
      (r.sent, r.queued, r.failed) = (1, 2, [⟨4⟩, ⟨9⟩]) ∧
      (∀ id, (t'.get? id).map Adapter.seen = (t.get? id).map Adapter.seen) ∧
      (t'.get? ⟨2⟩).map Adapter.queue ≠ (t.get? ⟨2⟩).map Adapter.queue := by
  have hn : [⟨4⟩, ⟨9⟩, ⟨3⟩, ⟨2⟩, ⟨1⟩].Nodup (α := InterfaceId) := by decide
  have hk : [⟨1⟩, ⟨2⟩, ⟨3⟩, ⟨4⟩, ⟨9⟩].Perm [⟨4⟩, ⟨9⟩, ⟨3⟩, ⟨2⟩, ⟨1⟩] (α := InterfaceId) := by decide
  obtain ⟨⟨r, t⟩, ht, hshown⟩ :
      ∃ x, mixed.dispatch [⟨4⟩, ⟨9⟩, ⟨3⟩, ⟨2⟩, ⟨1⟩] [7] 0 = .ok x ∧
        ((x.1.sent, x.1.queued, x.1.failed), (x.2.get? ⟨2⟩).map Adapter.queue) =
          ((1, 2, [⟨4⟩, ⟨9⟩]),
            some { depth := .unbounded, ordinary := [⟨⟨[7, 9, 9, 9], 1⟩, 4⟩] }) :=
    ok_of_shown (by decide +kernel)
  obtain ⟨⟨r₂, t₂⟩, ht₂, hshown₂⟩ :
      ∃ x, mixed.dispatch [⟨1⟩, ⟨2⟩, ⟨3⟩, ⟨4⟩, ⟨9⟩] [7] 0 = .ok x ∧
        (x.2.get? ⟨2⟩).map Adapter.queue =
          some { depth := .unbounded, ordinary := [⟨⟨[7, 8, 8, 8], 1⟩, 4⟩] } :=
    ok_of_shown (by decide +kernel)
  obtain ⟨hreport, hqueue⟩ := Prod.mk.inj hshown
  obtain ⟨r', t', ht', hseen, -⟩ :=
    ((dispatch_isolated mixed [7] 0 _ hn (by decide)).2 r t ht).permuted _ hk
  cases ht₂.symm.trans ht'
  refine ⟨r, t, r₂, t₂, ht, ht₂, hreport, hseen, ?_⟩
  rw [hqueue, show _ = _ from hshown₂]
  decide

end Stations
end MulticastRelay
