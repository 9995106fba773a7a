import MulticastRelay.Proofs.Node.Handover
import MulticastRelay.Proofs.Node.InStep
import MulticastRelay.Proofs.Topology.Pass

/-! # Where a captured frame goes

The edges of the graph say to which of the destinations named by the oracle a captured frame is handed,
and in which form. That is put down here as a list of handovers, apart from the lists and reports that
ingress goes through, and ingress is shown to carry out this list and nothing else.
-/
namespace MulticastRelay

/-! ## Frames -/

namespace Frame

variable {f : Frame}

/-- The frame after one hop: nothing once its hops are used up, and the same frame without an IP
header. -/
def afterHop? (f : Frame) : Option Frame :=
  match f.lowerHopCount with
  | (.lowered _, g) => some g
  | (.expired, _) => none
  | (.notIP, _) => some f

theorem lowerHopCount_notIP {g : Frame} (h : f.lowerHopCount = (.notIP, g)) : g = f := by
  unfold lowerHopCount at h
  split at h
  · unfold lowerTimeToLive at h
    dsimp only at h
    split at h <;> cases h
  · split at h
    · unfold lowerHopLimit at h
      dsimp only at h
      split at h <;> cases h
    · cases h
      rfl

theorem slice?_address {start : Nat} :
    (f.slice? start 6 >>= LinkAddress.ofOctets?).isSome ↔ start + 6 ≤ f.length := by
  unfold slice? LinkAddress.ofOctets?
  by_cases h : start + 6 ≤ f.length
  · have hl : ((f.drop start).take 6).length = 6 := by
      rw [List.length_take, List.length_drop]
      omega
    simp [h, hl]
  · simp [h]

theorem destination?_isSome : f.destination?.isSome ↔ 6 ≤ f.length := slice?_address

theorem source?_isSome : f.source?.isSome ↔ 12 ≤ f.length := slice?_address

end Frame

/-! ## The graph -/

namespace Topology

variable {t : Topology} {i : Interface} {id d : InterfaceId} {multicast : Bool}

/-- The group that owns the edge from one interface to another, if it is there. -/
def edgeGroup? (t : Topology) (x y : InterfaceId) : Option Group := (t.owner? x y).bind t.group?

/-- Whether a frame captured on an interface may go to a destination. -/
def admits (t : Topology) (id : InterfaceId) (multicast : Bool) (d : InterfaceId) : Bool :=
  d ≠ id && (t.edgeGroup? id d).any fun g => multicast || g.policy.unicast

/-- Whether the edge from one interface to another is a tunnel. -/
def tunnels (t : Topology) (x y : InterfaceId) : Bool := (t.edgeGroup? x y).any (·.tunnel)

/-- The handovers that a captured frame calls for: tunnels get it as it was captured, then the other
destinations get it after one hop. -/
def handovers (t : Topology) (id : InterfaceId) (multicast : Bool) (destinations : List InterfaceId)
    (f : Frame) : List Handover :=
  let admitted := destinations.filter (t.admits id multicast)
  (admitted.filter (t.tunnels id)).map (⟨·, f⟩) ++
    match f.afterHop? with
    | none => []
    | some g => (admitted.filter fun d => !t.tunnels id d).map (⟨·, g⟩)

theorem passage_eq (h : t.interface? id = some i) (d : InterfaceId) :
    (t.passage i multicast d = .tunnelled ↔ t.tunnels id d = true ∧ t.admits id multicast d = true) ∧
      (t.passage i multicast d = .plain ↔
        t.tunnels id d = false ∧ t.admits id multicast d = true) := by
  have hid : i.id = id := (Keyed.get?_mem h).2
  have he : t.edgeGroup? id d = (i.owner? d).bind t.group? := by rw [edgeGroup?, owner?, h]; rfl
  unfold passage tunnels admits
  rw [he, hid, Interface.owner?]
  by_cases hd : d = id
  · simp [hd]
  · rw [if_neg hd]
    cases i.associate? d with
    | none => simp
    | some edge =>
      cases hg : t.group? edge.owner with
      | none => simp [hg]
      | some g => cases hm : multicast <;> cases hu : g.policy.unicast <;> cases ht : g.tunnel <;>
          simp [hd, hg, hu, ht]

theorem mem_handovers {ds : List InterfaceId} {f : Frame} {h : Handover} :
    h ∈ t.handovers id multicast ds f ↔
      (h.dest ∈ ds ∧ t.admits id multicast h.dest = true) ∧
        if t.tunnels id h.dest then h.frame = f else f.afterHop? = some h.frame := by
  have hmap : ∀ (xs : List InterfaceId) (g : Frame),
      h ∈ xs.map (⟨·, g⟩ : InterfaceId → Handover) ↔ h.dest ∈ xs ∧ h.frame = g := by
    intro xs g
    rw [List.mem_map]
    constructor
    · rintro ⟨d, hd, rfl⟩
      exact ⟨hd, rfl⟩
    · rintro ⟨hd, rfl⟩
      exact ⟨h.dest, hd, rfl⟩
  unfold handovers
  rw [List.mem_append, hmap]
  cases f.afterHop? with
  | none => cases ht : t.tunnels id h.dest <;> simp [ht]
  | some g =>
    dsimp only
    rw [hmap, Option.some.injEq, eq_comm (a := g)]
    cases ht : t.tunnels id h.dest <;> simp [ht]

/-- Destinations named once are handed the frame once at most. -/
theorem handovers_nodup {ds : List InterfaceId} (hd : ds.Nodup) (f : Frame) :
    ((t.handovers id multicast ds f).map Handover.dest).Nodup := by
  have ha : (ds.filter (t.admits id multicast)).Nodup := hd.filter _
  have hmap : ∀ (xs : List InterfaceId) (g : Frame),
      (xs.map (⟨·, g⟩ : InterfaceId → Handover)).map Handover.dest = xs := fun xs g => by
    rw [List.map_map]
    exact List.map_id xs
  unfold handovers
  rw [List.map_append, hmap]
  cases f.afterHop? with
  | none =>
    rw [List.map_nil, List.append_nil]
    exact ha.filter _
  | some g =>
    dsimp only
    rw [hmap]
    exact (List.filter_append_perm (t.tunnels id) _).nodup_iff.2 ha

/-- Edges lead to interfaces that exist. -/
theorem Intact.has_of_admits (h : t.Intact) (hd : t.admits id multicast d = true) : t.Has d := by
  obtain ⟨g, hg, -⟩ := (Option.any_eq_true _ _).1 (Bool.and_eq_true_iff.1 hd).2
  obtain ⟨owner, ho, -⟩ := Option.bind_eq_some_iff.1 hg
  obtain ⟨i, hi, -, ha⟩ := h.owner?_eq.1 ho
  exact ((h.moored i hi).target _ ha).2

end Topology

namespace Node

/-- A relay is the handovers of the frame to tunnels and of the frame after one hop to the others. -/
theorem relay_carries (s : Stations) (tunnelled plain : List InterfaceId) (f : Frame)
    (now : Instant) :
    Stations.Carries now false (tunnelled.map (⟨·, f⟩) ++
        match f.afterHop? with
        | none => []
        | some g => plain.map (⟨·, g⟩)) s (relay s tunnelled plain f now)
      fun p => (p.2.1.delivered, p.2.2.2) := by
  rw [relay_eq]
  refine (Stations.dispatch_carries tunnelled s).bind ?_
  rintro ⟨r, t⟩
  -- With the tunnels served, what is left is the part for the plain destinations.
  have rest : ∀ g : Frame, Stations.Carries now r.delivered (plain.map (⟨·, g⟩)) t
      (t.dispatch plain g now >>= fun p => return (g, r ++ p.1, false, p.2))
      fun p => (p.2.1.delivered, p.2.2.2) := by
    exact fun g => ((Stations.dispatch_carries plain t).after r.delivered).map fun p =>
      Prod.ext (r.append_delivered p.1) rfl
  cases plain with
  | nil =>
    cases f.afterHop? <;> exact .done rfl
  | cons d ds =>
    unfold Frame.afterHop?
    rcases hl : f.lowerHopCount with ⟨_ | _ | _, g⟩
    · exact rest g
    · exact .done rfl
    · rw [← Frame.lowerHopCount_notIP hl]
      exact rest g

/-! ## Ingress -/

variable {n m : Node} {id : InterfaceId} {f : Frame} {now : Instant} {i : Interface}

/-- What the oracle decides on a frame, where there is an interface and a frame to ask about. -/
def decision? (n : Node) (id : InterfaceId) (f : Frame) : Option Decision := do
  let ingress ← n.topology.interface? id
  let source ← f.source?
  let destination ← f.destination?
  return (n.oracle.decide ⟨f, source, destination, ingress⟩).1

theorem decision?_flood {d : Decision} (ho : n.oracle.rule = Oracle.flood.rule)
    (hd : n.decision? id f = some d) :
    ∃ i, n.topology.interface? id = some i ∧ d.destinations = i.targets := by
  obtain ⟨i, hi, hd⟩ := Option.bind_eq_some_iff.1 hd
  obtain ⟨source, -, hd⟩ := Option.bind_eq_some_iff.1 hd
  obtain ⟨destination, -, hd⟩ := Option.bind_eq_some_iff.1 hd
  refine ⟨i, hi, ?_⟩
  rw [← Option.some.inj hd, Oracle.decide, ho]
  rfl

/-- Why a captured frame goes nowhere. -/
inductive Dropped (n : Node) (id : InterfaceId) (f : Frame) : Prop where
  | unknown (h : n.topology.interface? id = none)
  | closed (i : Interface) (h : n.topology.interface? id = some i) (hc : i.captureActive = false)
  | blocked (i : Interface) (h : n.topology.interface? id = some i)
      (hb : i.flags.blockIGMP = true) (hf : f.isIGMP = true)
  | truncated (h : f.length < 12)
  | repeated (d : Decision) (h : n.decision? id f = some d) (hd : d.duplicate = true)

/-- What a captured frame comes to at its ingress: nothing or one thing stops it. -/
inductive Assessed (n : Node) (id : InterfaceId) (f : Frame) : Admission → Prop where
  | dropped {a : Admission} (h : n.Dropped id f)
      (ha : ∀ i multicast ds o, a ≠ .admitted i multicast ds o) : Assessed n id f a
  | admitted {i : Interface} {destination : LinkAddress} {d : Decision} {o : Oracle}
      (hi : n.topology.interface? id = some i) (hf : f.destination? = some destination)
      (hd : n.decision? id f = some d) (h : ¬ n.Dropped id f) :
      Assessed n id f (.admitted i destination.isMulticast d.destinations o)

/-- A frame that meets none of the five is not dropped. -/
theorem not_dropped {d : Decision} {source : LinkAddress} (hi : n.topology.interface? id = some i)
    (hc : i.captureActive = true) (hb : ¬(i.flags.blockIGMP && f.isIGMP) = true)
    (hs : f.source? = some source) (hd : n.decision? id f = some d) (hdup : ¬d.duplicate = true) :
    ¬ n.Dropped id f := by
  intro h
  cases h with
  | unknown h =>
    rw [hi] at h
    cases h
  | closed j h hcj =>
    obtain rfl := Option.some.inj (h.symm.trans hi)
    rw [hc] at hcj
    cases hcj
  | blocked j h hbj hfj =>
    obtain rfl := Option.some.inj (h.symm.trans hi)
    exact hb (Bool.and_eq_true_iff.2 ⟨hbj, hfj⟩)
  | truncated h =>
    have hl := Frame.source?_isSome.1 (Option.isSome_of_mem hs)
    omega
  | repeated e h he =>
    rw [Option.some.inj (h.symm.trans hd)] at he
    exact hdup he

/-- A frame without addresses is too short for them. -/
theorem truncated_of_no_addresses
    (h : ∀ source destination, f.source? = some source → f.destination? = some destination → False) :
    f.length < 12 := by
  refine Nat.lt_of_not_le fun hl => ?_
  obtain ⟨source, hs⟩ := Option.isSome_iff_exists.1 (Frame.source?_isSome.2 hl)
  obtain ⟨destination, hf⟩ := Option.isSome_iff_exists.1
    (Frame.destination?_isSome.2 (by omega : 6 ≤ f.length))
  exact h source destination hs hf

theorem admission_assessed (n : Node) (id : InterfaceId) (f : Frame) :
    Assessed n id f (n.admission id f) := by
  unfold admission
  split
  · rename_i hi
    exact .dropped (.unknown hi) (fun _ _ _ _ => nofun)
  rename_i i hi
  split
  · rename_i hc
    exact .dropped (.closed i hi (by simpa using hc)) (fun _ _ _ _ => nofun)
  rename_i hc
  split
  · rename_i hb
    obtain ⟨hb, hf⟩ := Bool.and_eq_true_iff.1 hb
    exact .dropped (.blocked i hi hb hf) (fun _ _ _ _ => nofun)
  rename_i hb
  split
  · rename_i source destination hs hf
    have hd : n.decision? id f = some (n.oracle.decide ⟨f, source, destination, i⟩).1 := by
      unfold decision?
      rw [hi, hs, hf]
      rfl
    dsimp only
    split
    · rename_i hdup
      exact .dropped (.repeated _ hd hdup) (fun _ _ _ _ => nofun)
    · rename_i hdup
      exact .admitted hi hf hd (not_dropped hi (by simpa using hc) hb hs hd hdup)
  · rename_i hnone
    exact .dropped (.truncated (truncated_of_no_addresses hnone)) (fun _ _ _ _ => nofun)

/-- Ingress carries out handovers, fails where they fail, and touches no adapter besides. -/
structure CarriesOut (n : Node) (id : InterfaceId) (f : Frame) (now : Instant)
    (hs : List Handover) : Prop where
  fault : ∀ e, Stations.handAll now hs n.stations = .error e → n.ingress id f now = .error e
  done : ∀ taken s, Stations.handAll now hs n.stations = .ok (taken, s) →
    ∃ relayed g m, n.ingress id f now = .ok ((relayed, g), m) ∧ m.stations = s ∧
      m.topology = n.topology ∧ (relayed = true ↔ true ∈ taken) ∧
      m.counters.relayed = n.counters.relayed + if relayed then 1 else 0
  others : ∀ r m, n.ingress id f now = .ok (r, m) → ∀ x, x ∉ hs.map Handover.dest →
    m.station? x = n.station? x

theorem CarriesOut.of_done {hs : List Handover}
    (fault : ∀ e, Stations.handAll now hs n.stations = .error e → n.ingress id f now = .error e)
    (done : ∀ taken s, Stations.handAll now hs n.stations = .ok (taken, s) →
      ∃ relayed g m, n.ingress id f now = .ok ((relayed, g), m) ∧ m.stations = s ∧
        m.topology = n.topology ∧ (relayed = true ↔ true ∈ taken) ∧
        m.counters.relayed = n.counters.relayed + if relayed then 1 else 0) :
    CarriesOut n id f now hs := by
  refine ⟨fault, done, fun r m hm x hx => ?_⟩
  cases hh : Stations.handAll now hs n.stations with
  | error e =>
    rw [fault e hh] at hm
    cases hm
  | ok p =>
    obtain ⟨relayed, g, m', hm', hs', -⟩ := done p.1 p.2 hh
    rw [hm'] at hm
    cases hm
    unfold station?
    rw [hs']
    exact Stations.handAll_other hh hx

theorem ingress_of_dropped (ha : ∀ i multicast ds o, n.admission id f ≠ .admitted i multicast ds o) :
    CarriesOut n id f now [] := by
  refine .of_done nofun fun taken s h => ?_
  cases h
  unfold ingress
  dsimp only
  -- The count of frames received plays no part in the admission.
  rw [show ∀ counters, admission { n with counters } id f = n.admission id f from fun _ => rfl]
  cases hadm : n.admission id f with
  | admitted i multicast ds o => exact absurd hadm (ha i multicast ds o)
  | unknownIngress | captureClosed | igmpBlocked | truncated | duplicate o =>
    exact ⟨false, f, _, rfl, rfl, rfl, by simp, rfl⟩

theorem ingress_of_admitted {ds : List InterfaceId} {multicast : Bool} {o : Oracle}
    (hi : n.topology.interface? id = some i)
    (ha : n.admission id f = .admitted i multicast ds o) :
    CarriesOut n id f now (n.topology.handovers id multicast ds f) := by
  have htun : ds.filter (fun d => n.topology.passage i multicast d = .tunnelled) =
      (ds.filter (n.topology.admits id multicast)).filter (n.topology.tunnels id) := by
    rw [List.filter_filter]
    refine List.filter_congr fun d _ => ?_
    rw [Bool.eq_iff_iff, decide_eq_true_iff, Bool.and_eq_true]
    exact (Topology.passage_eq hi d).1
  have hplain : ds.filter (fun d => n.topology.passage i multicast d = .plain) =
      (ds.filter (n.topology.admits id multicast)).filter fun d => !n.topology.tunnels id d := by
    rw [List.filter_filter]
    refine List.filter_congr fun d _ => ?_
    rw [Bool.eq_iff_iff, decide_eq_true_iff, Bool.and_eq_true, Bool.not_eq_true']
    exact (Topology.passage_eq hi d).2
  have hc : Stations.Carries now false (n.topology.handovers id multicast ds f) n.stations
      (relay n.stations (ds.filter fun d => n.topology.passage i multicast d = .tunnelled)
        (ds.filter fun d => n.topology.passage i multicast d = .plain) f now)
      fun p => (p.2.1.delivered, p.2.2.2) := by
    unfold Topology.handovers
    dsimp only
    rw [← htun, ← hplain]
    exact relay_carries n.stations _ _ f now
  refine .of_done (fun e he => ?_) fun taken s hs => ?_
  all_goals
    unfold ingress
    dsimp only
    rw [show ∀ counters, admission { n with counters } id f = n.admission id f from fun _ => rfl, ha]
    dsimp only
  · rcases hc.alike with ⟨e', hh, hr⟩ | ⟨taken, t, p, hh, -, -⟩
    · rw [he] at hh
      cases hh
      rw [hr]
      rfl
    · rw [he] at hh
      cases hh
  · rcases hc.alike with ⟨e, hh, -⟩ | ⟨taken', t, p, hh, hr, hp⟩
    · rw [hs] at hh
      cases hh
    · rw [hs] at hh
      cases hh
      obtain ⟨g, report, expired, u⟩ := p
      obtain ⟨hd, rfl⟩ := Prod.mk.inj hp
      have hany : report.delivered = true ↔ true ∈ taken := by
        rw [show report.delivered = taken.any fun b => b from hd]
        simp
      rw [hr]
      dsimp only [bind, Except.bind]
      cases hdel : report.delivered with
      | true => exact ⟨true, g, _, rfl, rfl, rfl, by rw [← hany, hdel], rfl⟩
      | false =>
        rw [if_neg (by decide)]
        rw [hdel] at hany
        split
        · exact ⟨false, g, _, rfl, rfl, rfl, hany, rfl⟩
        · exact ⟨false, g, _, rfl, rfl, rfl, hany, rfl⟩

/-- A captured frame goes exactly where the graph allows. Nothing is handed over when it is dropped;
otherwise every destination of the decision to which an admitting edge leads is handed the frame, and
no other. The adapters are there at any time in a run, and classical flooding hands a frame to each
once at most. -/
theorem ingress_follows_edges (n : Node) (id : InterfaceId) (f : Frame) (now : Instant) :
    (n.Dropped id f → CarriesOut n id f now []) ∧
    (¬ n.Dropped id f → ∃ d destination, n.decision? id f = some d ∧
      f.destination? = some destination ∧
      let hs := n.topology.handovers id destination.isMulticast d.destinations f
      CarriesOut n id f now hs ∧
      ∀ r, Reachable r → SameRoster r n →
        (∀ h ∈ hs, h.dest ≠ id ∧ (n.station? h.dest).isSome) ∧
        (n.oracle.rule = Oracle.flood.rule → (hs.map Handover.dest).Nodup)) := by
  have assessed := admission_assessed n id f
  generalize hadm : n.admission id f = a at assessed
  cases assessed with
  | dropped h ha => exact ⟨fun _ => ingress_of_dropped (hadm ▸ ha), fun hn => absurd h hn⟩
  | admitted hi hf hd h =>
    refine ⟨fun hn => absurd hn h, fun _ => ⟨_, _, hd, hf, ingress_of_admitted hi hadm, ?_⟩⟩
    intro r hr hroster
    have aligned : Aligned n [] := (reachable_aligned hr).of_roster hroster
    refine ⟨fun h hh => ?_, fun hflood => Topology.handovers_nodup ?_ f⟩
    · have ha := (Topology.mem_handovers.1 hh).1.2
      have hne : h.dest ≠ id := of_decide_eq_true (Bool.and_eq_true_iff.1 ha).1
      exact ⟨hne, mans_iff.1 ((aligned.manned _ (aligned.intact.has_of_admits ha)).resolve_right
        List.not_mem_nil)⟩
    · obtain ⟨i, hi, ht⟩ := decision?_flood hflood hd
      rw [ht]
      exact (aligned.intact.moored i (Keyed.get?_mem hi).1).single

/-- A datagram for a multicast address, with so many hops left. -/
def datagram (hops checksum : UInt8) : Frame :=
  [0x01, 0x00, 0x5e, 0x00, 0x00, 0xfb, 0x02, 0x00, 0x00, 0x00, 0x00, 0x01, 0x08, 0x00,
    0x45, 0x00, 0x00, 0x14, 0x00, 0x00, 0x00, 0x00, hops, 0x11, checksum, 0x00,
    0x0a, 0x00, 0x00, 0x01, 0xe0, 0x00, 0x00, 0xfb]

/-- A frame captured where a tunnel and a plain edge start goes into the tunnel as it was captured,
though the tunnel comes last among the edges. One from nowhere goes nowhere. -/
theorem tunnel_gets_captured_frame : ∃ n : Node, Reachable n ∧
    (¬ n.Dropped ⟨1⟩ (datagram 5 7) ∧
      let hs : List Handover := [⟨⟨3⟩, datagram 5 7⟩, ⟨⟨2⟩, datagram 4 8⟩]
      CarriesOut n ⟨1⟩ (datagram 5 7) 0 hs ∧
      (∀ h ∈ hs, h.dest ≠ ⟨1⟩ ∧ (n.station? h.dest).isSome) ∧
      n.oracle.rule = Oracle.flood.rule ∧ (hs.map Handover.dest).Nodup) ∧
    (n.Dropped ⟨9⟩ (datagram 5 7) ∧ CarriesOut n ⟨9⟩ (datagram 5 7) 0 []) := by
  have fresh : Reachable (new { poolSize := 4, frameSize := 64 }) := .new _
  have linked := fresh.next (.setLinks [⟨"eth0", 1, true⟩, ⟨"eth1", 2, true⟩, ⟨"eth2", 3, true⟩]) rfl
  have grouped := linked.next (.addGroup "lan" .merge .classicalFlooding) rfl
  have entered := grouped.next (.addMember "lan" "eth0" .destination) rfl
  have joined := entered.next (.addMember "lan" "eth1" .destination) rfl
  have regrouped := joined.next (.addGroup "mesh" .merge .classicalFlooding) rfl
  have dug := regrouped.next (.setGroupPolicy "mesh" {} true false) rfl
  have entrance := dug.next (.addMember "mesh" "eth0" .destination) rfl
  have exit := entrance.next (.addMember "mesh" "eth2" .destination) rfl
  obtain ⟨n, hn, floods, active, decided, hands, nowhere⟩ : ∃ n : Node, Reachable n ∧
      n.oracle.rule = Oracle.flood.rule ∧
      (n.topology.interface? ⟨1⟩).map (fun i => (i.captureActive, i.flags.blockIGMP)) =
        some (true, false) ∧
      n.decision? ⟨1⟩ (datagram 5 7) = some { destinations := [⟨2⟩, ⟨3⟩] } ∧
      n.topology.handovers ⟨1⟩ true [⟨2⟩, ⟨3⟩] (datagram 5 7) =
        [⟨⟨3⟩, datagram 5 7⟩, ⟨⟨2⟩, datagram 4 8⟩] ∧
      n.topology.interface? ⟨9⟩ = none :=
    ⟨_, exit, rfl, by decide +kernel, by decide +kernel, by decide +kernel, by decide +kernel⟩
  have open_ : ¬ n.Dropped ⟨1⟩ (datagram 5 7) := by
    intro h
    cases h with
    | unknown h => simp [h] at active
    | closed i h hc => simp [h, hc] at active
    | blocked i h hb => simp [h, hb] at active
    | truncated h => exact absurd h (by decide)
    | repeated d h hd =>
      rw [← Option.some.inj (decided.symm.trans h)] at hd
      cases hd
  refine ⟨n, hn, ⟨open_, ?_⟩, .unknown nowhere,
    (ingress_follows_edges n ⟨9⟩ (datagram 5 7) 0).1 (.unknown nowhere)⟩
  obtain ⟨d, destination, hd, hf, hc⟩ := (ingress_follows_edges n ⟨1⟩ (datagram 5 7) 0).2 open_
  have hm : destination.isMulticast = true := by
    have : (datagram 5 7).destination?.map LinkAddress.isMulticast = some true := by decide +kernel
    simpa [hf] using this
  rw [← Option.some.inj (decided.symm.trans hd), hm, hands] at hc
  obtain ⟨stands, once⟩ := hc.2 n hn (.refl n)
  exact ⟨hc.1, stands, floods, once floods⟩

end Node
end MulticastRelay
