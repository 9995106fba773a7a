import MulticastRelay.Proofs.Node.Buffers
import MulticastRelay.Proofs.Node.Dispatch
import MulticastRelay.Proofs.Node.Graph
import MulticastRelay.Proofs.Topology.Naming

/-! # Adapters and interfaces in step

A node has one adapter for each interface of its topology and no other. Interfaces appear by name, by
link and by wildcard, and where wildcards make them their adapters follow before the operation ends.
A link is given the index that its name has already, so that no name ever answers for two interfaces.
-/
namespace MulticastRelay

namespace Node

variable {n m k : Node} {id a : InterfaceId} {name : String} {now : Instant} {f : Frame}

/-! ## Operations that neither make nor drop an adapter -/

/-- The graph and the owners of the adapters are the same. -/
structure SameRoster (n m : Node) : Prop extends SameGraph n m where
  owners : m.stations.owners = n.stations.owners

namespace SameRoster

theorem refl (n : Node) : SameRoster n n := ⟨.refl n, rfl⟩

theorem trans (h : SameRoster n m) (h' : SameRoster m k) : SameRoster n k :=
  ⟨h.toSameGraph.trans h'.toSameGraph, h'.owners.trans h.owners⟩

end SameRoster

theorem setStation_roster (n : Node) (b : Station) : SameRoster n (n.setStation b) :=
  ⟨⟨rfl, rfl, rfl⟩, Stations.replace_owners _ b⟩

theorem mapStations_roster (n : Node) {g : Station → Station} (hg : ∀ b, (g b).owner = b.owner) :
    SameRoster n { n with stations := { n.stations with adapters := n.stations.adapters.map g } } :=
  ⟨⟨rfl, rfl, rfl⟩, by simp [Stations.owners, Function.comp_def, hg]⟩

theorem syncCapture_roster (n : Node) : SameRoster n n.syncCapture :=
  mapStations_roster n fun _ => rfl

theorem orSame_roster {r : Except NodeError Node} (h : ∀ m, r = .ok m → SameRoster n m) :
    SameRoster n (n.orSame r) := by
  cases r with
  | error e => exact .refl n
  | ok m => exact h m rfl

theorem modifyStation_roster {g : Station → Station} (h : n.modifyStation name g = .ok m) :
    SameRoster n m := by
  obtain ⟨b, -, h⟩ := ok_of_bind h
  cases h
  exact setStation_roster n (g b)

theorem setDeviceTx_roster {device : String} {on : Bool} (h : n.setDeviceTx name device on = .ok m) :
    SameRoster n m := by
  obtain ⟨b, -, h⟩ := ok_of_bind h
  split at h
  · cases h
    exact setStation_roster n _
  · cases h

theorem setRateLimit_roster {rate : Float} {r : Except NodeError Node}
    (h : n.setRateLimit name rate now = .ok r) : SameRoster n (n.orSame r) := by
  unfold setRateLimit at h
  split at h
  · cases h
    exact .refl n
  · obtain ⟨b, -, h⟩ := ok_of_bind h
    cases h
    exact setStation_roster n b

theorem setQueueDepth_roster {depth : QueueDepth} (h : n.setQueueDepth name depth = .ok m) :
    SameRoster n m := by
  obtain ⟨b, -, h⟩ := ok_of_bind h
  cases h
  exact ⟨⟨rfl, rfl, rfl⟩, Stations.replace_owners _ _⟩

theorem forward_roster {destinations : List InterfaceId} {delivered : Bool}
    (h : n.forward destinations f now = .ok (delivered, m)) : SameRoster n m := by
  obtain ⟨⟨report, stations⟩, hs, h⟩ := ok_of_bind h
  cases h
  exact ⟨⟨rfl, rfl, rfl⟩, Stations.dispatch_owners hs⟩

theorem ingress_roster {r : Bool × Frame} (h : n.ingress id f now = .ok (r, m)) :
    SameRoster n m := by
  unfold ingress at h
  dsimp only at h
  split at h
  · cases h
    exact ⟨⟨rfl, rfl, rfl⟩, rfl⟩
  · cases h
    exact ⟨⟨rfl, rfl, rfl⟩, rfl⟩
  · cases h
    exact ⟨⟨rfl, rfl, rfl⟩, rfl⟩
  · cases h
    exact ⟨⟨rfl, rfl, rfl⟩, rfl⟩
  · cases h
    exact ⟨⟨rfl, rfl, rfl⟩, rfl⟩
  · obtain ⟨⟨g, report, expired, stations⟩, hs, h⟩ := ok_of_bind h
    have ho : stations.owners = n.stations.owners := relay_owners hs
    dsimp only at h
    split at h
    · cases h
      exact ⟨⟨rfl, rfl, rfl⟩, ho⟩
    · split at h
      · cases h
        exact ⟨⟨rfl, rfl, rfl⟩, ho⟩
      · cases h
        exact ⟨⟨rfl, rfl, rfl⟩, ho⟩

theorem serve_roster {captured : List Buffer} (h : n.serve id now = .ok (captured, m)) :
    SameRoster n m := by
  unfold serve at h
  split at h
  · cases h
    exact .refl n
  · obtain ⟨⟨fired, b, p⟩, -, h⟩ := ok_of_bind h
    dsimp only at h
    split at h
    all_goals
      obtain ⟨⟨c, q⟩, -, h⟩ := ok_of_bind h
      dsimp only at h
      split at h
      all_goals
        obtain ⟨⟨d, r⟩, -, h⟩ := ok_of_bind h
        cases h
        exact ⟨⟨rfl, rfl, rfl⟩, Stations.replace_owners _ d⟩

theorem serveAll_roster {ids : List InterfaceId} {captured : List (InterfaceId × Buffer)}
    (h : n.serveAll now ids = .ok (captured, m)) : SameRoster n m := by
  induction ids generalizing n captured with
  | nil =>
    cases h
    exact .refl _
  | cons id ids ih =>
    obtain ⟨⟨first, u⟩, hu, h⟩ := ok_of_bind h
    obtain ⟨⟨more, v⟩, hv, h⟩ := ok_of_bind h
    cases h
    exact (serve_roster hu).trans (ih hv)

theorem ingressAll_roster {captured : List (InterfaceId × Buffer)}
    (h : n.ingressAll now captured = .ok m) : SameRoster n m := by
  induction captured generalizing n with
  | nil =>
    cases h
    exact .refl _
  | cons x rest ih =>
    obtain ⟨⟨r, u⟩, hu, h⟩ := ok_of_bind h
    have put : SameRoster u (u.putBuffer x.2) := ⟨⟨rfl, rfl, rfl⟩, rfl⟩
    exact ((ingress_roster hu).trans put).trans (ih h)

theorem poll_roster {captured : Nat} (h : n.poll now = .ok (captured, m)) : SameRoster n m := by
  obtain ⟨⟨frames, u⟩, hu, h⟩ := ok_of_bind h
  obtain ⟨v, hv, h⟩ := ok_of_bind h
  cases h
  exact (serveAll_roster hu).trans (ingressAll_roster hv)

theorem shutdown_roster (n : Node) : SameRoster n n.shutdown :=
  ⟨⟨rfl, rfl, rfl⟩, (closeAll_available n.stations.adapters n.stations.pool).2.2⟩

/-! ## In step but for some -/

/-- The node has an adapter for the interface. -/
def Mans (n : Node) (id : InterfaceId) : Prop := id ∈ n.stations.owners

/-- Adapters and interfaces are in step, but for interfaces of a list whose adapters are to come. -/
structure Aligned (n : Node) (pending : List InterfaceId) : Prop where
  intact : n.topology.Intact
  named : n.topology.Named
  links : (n.links.map Link.name).Nodup
  present : ∀ id, n.Mans id → n.topology.Has id
  manned : ∀ id, n.topology.Has id → n.Mans id ∨ id ∈ pending

variable {p : List InterfaceId}

theorem mans_iff : n.Mans id ↔ (n.station? id).isSome := by
  unfold Mans Stations.owners station? Stations.get?
  rw [Option.isSome_iff_ne_none, ne_eq, Keyed.get?_eq_none_iff, not_not]

namespace Aligned

theorem of_roster (h : Aligned n p) (hr : SameRoster n m) : Aligned m p where
  intact := hr.topology.symm ▸ h.intact
  named := hr.topology.symm ▸ h.named
  links := hr.links.symm ▸ h.links
  present id hid := by
    unfold Mans at hid
    rw [hr.owners] at hid
    rw [hr.topology]
    exact h.present id hid
  manned id hid := by
    unfold Mans
    rw [hr.owners]
    exact h.manned id (hr.topology ▸ hid)

/-- The topology changes, but not its interfaces and their names. -/
theorem of_sameNames (h : Aligned n p) {t : Topology} (hi : t.Intact)
    (hs : Topology.SameNames n.topology t) : Aligned { n with topology := t } p where
  intact := hi
  named := hs.named h.named
  links := h.links
  present id hid := hs.has.2 (h.present id hid)
  manned id hid := h.manned id (hs.has.1 hid)

/-- Interfaces that are gone take their adapters with them. -/
theorem of_dropped (h : Aligned n p) {t : Topology} (gone : List InterfaceId)
    (hg : SameGraph { n with topology := t } m) (hi : t.Intact)
    (ht : t.Named ∧ ∀ a, t.Has a ↔ a ∉ gone ∧ n.topology.Has a)
    (hm : ∀ a, m.Mans a ↔ a ∉ gone ∧ n.Mans a) : Aligned m p where
  intact := hg.topology.symm ▸ hi
  named := hg.topology.symm ▸ ht.1
  links := hg.links.symm ▸ h.links
  present id hid := by
    obtain ⟨hgone, hid⟩ := (hm id).1 hid
    rw [hg.topology]
    exact (ht.2 id).2 ⟨hgone, h.present id hid⟩
  manned id hid := by
    rw [hg.topology] at hid
    obtain ⟨hgone, hid⟩ := (ht.2 id).1 hid
    exact (h.manned id hid).imp_left fun hid => (hm id).2 ⟨hgone, hid⟩

/-- The index that a link is given is the one its name has. -/
theorem normalize_free (h : Aligned n p) (l : Link) :
    n.topology.FreeFor ⟨(n.normalize l).index⟩ (n.normalize l).name := by
  unfold normalize
  cases hi : n.topology.interfaceNamed? l.name with
  | some i => exact h.named.freeFor hi
  | none => exact h.named.freeFor_any hi

end Aligned

/-! ## Interfaces and devices -/

theorem ensureStation_mans (n : Node) (id : InterfaceId) (name : String) :
    (n.ensureStation id name).Mans a ↔ a = id ∨ n.Mans a := by
  unfold ensureStation
  by_cases hs : (n.station? id).isSome = true
  · rw [if_pos hs]
    constructor
    · exact .inr
    · rintro (rfl | ha)
      · exact mans_iff.2 hs
      · exact ha
  · rw [if_neg hs]
    let b := ((Adapter.new id name : Station).setQueueDepth n.stations.pool n.settings.defaultQueue).1
    have hb : b.owner = id := (Adapter.setQueueDepth_conserves (i := 0) _ _ _).owner
    have hfree : b.owner ∉ n.stations.adapters.map Adapter.owner := by
      rw [hb]
      exact fun hm => hs (mans_iff.1 hm)
    have hp := (Stations.insert_perm hfree).map Adapter.owner
    rw [List.map_cons, hb] at hp
    exact hp.mem_iff.trans List.mem_cons

theorem ensureStation_aligned (h : Aligned n (id :: p)) (hid : n.topology.Has id) (name : String) :
    Aligned (n.ensureStation id name) p where
  intact := (ensureStation_graph n id name).topology.symm ▸ h.intact
  named := (ensureStation_graph n id name).topology.symm ▸ h.named
  links := (ensureStation_graph n id name).links.symm ▸ h.links
  present a ha := by
    rw [(ensureStation_graph n id name).topology]
    rcases (ensureStation_mans n id name).1 ha with rfl | ha
    · exact hid
    · exact h.present a ha
  manned a ha := by
    rw [(ensureStation_graph n id name).topology] at ha
    rw [ensureStation_mans]
    rcases h.manned a ha with hm | hm
    · exact .inl (.inr hm)
    · exact (List.mem_cons.1 hm).imp_left .inl

theorem indexFor_graph (n : Node) (name : String) :
    (n.indexFor name).2.topology = n.topology ∧ (n.indexFor name).2.links = n.links := by
  unfold indexFor
  split
  · exact ⟨rfl, rfl⟩
  · split <;> exact ⟨rfl, rfl⟩

theorem addInterface_topology (n : Node) (name : String) :
    (n.addInterface name).2.topology = n.topology.addInterface (n.indexFor name).1 name := by
  unfold addInterface
  dsimp only
  rw [(ensureStation_graph _ _ _).topology, (indexFor_graph n name).1]

theorem addInterface_host (n : Node) (name : String) : (n.addInterface name).2.host = n.host := by
  unfold addInterface
  dsimp only
  rw [ensureStation_host]
  unfold indexFor
  split
  · rfl
  · split <;> rfl

theorem indexFor_free (h : n.topology.Named) (name : String) :
    n.topology.FreeFor (n.indexFor name).1 name := by
  unfold indexFor
  cases hi : n.topology.interfaceNamed? name with
  | some i => exact h.freeFor hi
  | none =>
    dsimp only
    split <;> exact h.freeFor_any hi

theorem addInterface_aligned (h : Aligned n p) (name : String) :
    Aligned (n.addInterface name).2 p := by
  have hfree := indexFor_free h.named name
  obtain ⟨ht, hl⟩ := indexFor_graph n name
  have hs := indexFor_stations n name
  have hhas : ∀ a, (n.topology.addInterface (n.indexFor name).1 name).Has a ↔
      a = (n.indexFor name).1 ∨ n.topology.Has a := fun a => h.intact.addInterface_has_iff
  refine ensureStation_aligned (n := { (n.indexFor name).2 with
    topology := (n.indexFor name).2.topology.addInterface (n.indexFor name).1 name }) ?_ ?_ name
  · refine ⟨?_, ?_, ?_, ?_, ?_⟩
    all_goals dsimp only
    · rw [ht]
      exact h.intact.addInterface _ _
    · rw [ht]
      exact h.named.addInterface h.intact hfree
    · rw [hl]
      exact h.links
    · intro a ha
      rw [ht, hhas]
      unfold Mans at ha
      rw [hs] at ha
      exact .inr (h.present a ha)
    · intro a ha
      rw [ht, hhas] at ha
      unfold Mans
      rw [hs]
      rcases ha with rfl | ha
      · exact .inr (List.mem_cons_self ..)
      · exact (h.manned a ha).imp_right (List.mem_cons_of_mem _)
  · dsimp only
    rw [ht, hhas]
    exact .inl rfl

/-- What an interface carries apart from its index, name and edges is no matter. -/
theorem modifyInterface_aligned (h : Aligned n p) (id : InterfaceId) {f : Interface → Interface}
    (hf : ∀ i, (f i).id = i.id ∧ (f i).name = i.name ∧ (f i).associates = i.associates) :
    Aligned { n with topology := n.topology.modifyInterface id f } p :=
  h.of_sameNames (h.intact.dress hf)
    (Topology.modifyInterface_recast (fun i _ => (hf i).2.1) fun i hi => (hf i).1.trans hi).sameNames

/-- Opening the devices of an interface gives it an adapter. -/
theorem openDevices_aligned (h : Aligned n (id :: p)) : Aligned (n.openDevices id).2 p := by
  unfold openDevices
  split
  · rename_i hi
    refine ⟨h.intact, h.named, h.links, h.present, fun a ha => ?_⟩
    refine (h.manned a ha).imp_right fun hm => (List.mem_cons.1 hm).resolve_left ?_
    rintro rfl
    obtain ⟨i, hi'⟩ := Topology.has_iff.1 ha
    rw [hi] at hi'
    cases hi'
  · rename_i i hi
    have hm := ensureStation_aligned h (Topology.has_iff.2 ⟨i, hi⟩) i.name
    dsimp only
    split
    · exact hm
    · split
      · exact hm
      · exact hm.of_roster ⟨⟨rfl, rfl, rfl⟩, Stations.replace_owners _ _⟩

theorem tryOpenAll_aligned (ls : List Link) : ∀ {n : Node},
    Aligned n (ls.map (⟨·.index⟩) ++ p) →
      Aligned (ls.foldl (fun n l => n.tryOpenDevices ⟨l.index⟩) n) p := by
  induction ls with
  | nil => exact id
  | cons l ls ih => exact fun h => ih (openDevices_aligned h)

theorem dropStation_graph (n : Node) (id : InterfaceId) : SameGraph n (n.dropStation id) := by
  unfold dropStation
  split
  · exact .refl n
  · exact ⟨rfl, rfl, rfl⟩

theorem dropStation_mans (n : Node) (id : InterfaceId) :
    (n.dropStation id).Mans a ↔ a ≠ id ∧ n.Mans a := by
  unfold dropStation
  split
  · rename_i hs
    constructor
    · refine fun ha => ⟨?_, ha⟩
      rintro rfl
      have := mans_iff.1 ha
      rw [hs] at this
      cases this
    · exact And.right
  · exact Keyed.mem_keys_erase

theorem dropAll_graph (ids : List InterfaceId) (n : Node) : SameGraph n (ids.foldl dropStation n) := by
  induction ids generalizing n with
  | nil => exact .refl n
  | cons id ids ih => exact (dropStation_graph n id).trans (ih _)

theorem dropAll_mans (ids : List InterfaceId) (n : Node) :
    (ids.foldl dropStation n).Mans a ↔ a ∉ ids ∧ n.Mans a := by
  induction ids generalizing n with
  | nil => simp
  | cons id ids ih =>
    rw [List.foldl_cons, ih, dropStation_mans, List.mem_cons, not_or]
    tauto

theorem setDevices_aligned (h : Aligned n p) (name : String) (devices : List String) :
    Aligned (n.setDevices name devices).2 p := by
  unfold setDevices
  split
  · exact h
  · have ha := addInterface_aligned h name
    have hm := modifyInterface_aligned ha (n.addInterface name).1
      (f := fun i => { i with binding := i.binding.withDevices devices }) fun _ => ⟨rfl, rfl, rfl⟩
    dsimp only
    split
    · exact hm
    · split
      · exact hm.of_roster ⟨⟨rfl, rfl, rfl⟩, Stations.replace_owners _ _⟩
      · exact hm.of_roster ⟨⟨rfl, rfl, rfl⟩, Stations.replace_owners _ _⟩

theorem bindVif_aligned (h : Aligned n p) (name vif : String) (address : LinkAddress) :
    Aligned (n.bindVif name vif address).2 p := by
  unfold bindVif
  split
  · exact h
  · rename_i id _
    split
    · exact h
    · have hm := modifyInterface_aligned h id
        (f := fun i => { i with binding := .virtual vif i.binding.devices })
        fun _ => ⟨rfl, rfl, rfl⟩
      dsimp only
      split
      · exact hm.of_roster ⟨⟨rfl, rfl, rfl⟩, rfl⟩
      · exact hm.of_roster ⟨⟨rfl, rfl, rfl⟩, Stations.replace_owners _ _⟩

/-! ## Links and groups -/

theorem linkUp_aligned (h : Aligned n []) (link : Link) : Aligned (n.linkUp link).2 [] := by
  have hput : Aligned { n with links := putLink n.links link } [] :=
    ⟨h.intact, h.named, Keyed.nodup_put link h.links, h.present, h.manned⟩
  let l := ({ n with links := putLink n.links link } : Node).normalize link
  obtain ⟨hn, hkeep, hnew⟩ := hput.named.linkUp hput.intact (hput.normalize_free link)
  have hl : Aligned { n with
      links := putLink n.links link
      topology := (n.topology.linkUp l).2 } [⟨l.index⟩] :=
    ⟨hput.intact.linkUp l, hn, hput.links, fun a ha => hkeep a (h.present a ha), fun a ha => by
      rcases hnew a ha with ha | rfl
      · exact (h.manned a ha).imp_right fun hm => absurd hm List.not_mem_nil
      · exact .inr (List.mem_singleton_self _)⟩
  exact (openDevices_aligned hl).of_roster (syncCapture_roster _)

theorem destroyInterface_aligned (h : Aligned n p) (id : InterfaceId) :
    Aligned (n.destroyInterface id) p := by
  refine h.of_dropped [id] (dropStation_graph _ id) (h.intact.removeInterface id)
    ⟨h.named.removeInterface id, fun a => ?_⟩ fun a => ?_
  · rw [Topology.removeInterface_has_iff, List.mem_singleton]
  · rw [destroyInterface, dropStation_mans, List.mem_singleton]
    rfl

theorem linkDown_aligned (h : Aligned n p) (name : String) : Aligned (n.linkDown name).2 p := by
  have hdown : Aligned { n with
      links := Keyed.modify Link.name name (fun l => { l with up := false }) n.links } p := by
    refine ⟨h.intact, h.named, ?_, h.present, h.manned⟩
    dsimp only
    have hnames : (Keyed.modify Link.name name (fun l => { l with up := false }) n.links).map
        Link.name = n.links.map Link.name := Keyed.map_key_modify fun _ hl => hl
    rw [hnames]
    exact h.links
  unfold linkDown
  dsimp only
  split
  · exact hdown
  · exact (destroyInterface_aligned hdown _).of_roster (syncCapture_roster _)

theorem normalize_name (n : Node) (l : Link) : (n.normalize l).name = l.name := by
  unfold normalize
  split <;> rfl

theorem normalize_up (n : Node) (l : Link) : (n.normalize l).up = l.up := by
  unfold normalize
  split <;> rfl

theorem sortedLinks_names (h : (n.links.map Link.name).Nodup) (q : Link → Bool) :
    (((n.sortedLinks.filter q).map n.normalize).map Link.name).Nodup := by
  have hp : (n.sortedLinks.map Link.name).Perm (n.links.map Link.name) :=
    (List.mergeSort_perm n.links _).map Link.name
  rw [List.map_map, Function.comp_def]
  simp only [normalize_name]
  exact (hp.nodup_iff.2 h).sublist (List.filter_sublist.map Link.name)

theorem setGroupPolicy_aligned (h : Aligned n p) {policy : GroupPolicy} {tunnel resequence : Bool}
    (hm : n.setGroupPolicy name policy tunnel resequence = .ok m) : Aligned m p := by
  obtain ⟨gid, -, hm⟩ := ok_of_bind hm
  cases hm
  exact h.of_sameNames (h.intact.modifyGroup fun k hk =>
    ⟨rfl, rfl, (h.intact.peopled k (h.intact.group?_eq.1 hk).1).unsourced rfl (.inr rfl)⟩)
    (.of_interfaces rfl rfl)

theorem addWildcardMember_aligned (h : Aligned n []) (group : GroupId) (stem : String)
    (role : Role) : Aligned (n.addWildcardMember group stem role).2 [] := by
  unfold addWildcardMember
  split
  · exact h
  · rename_i matcher topology hm
    have ht : Aligned { n with topology } [] :=
      h.of_sameNames (h.intact.addMatcher hm) (Topology.addMatcher_sameNames hm)
    let ls := (({ n with topology } : Node).sortedLinks.filter fun l => matcher.accepts l.name).map
      ({ n with topology } : Node).normalize
    obtain ⟨hn, hhas⟩ := ht.named.matchLinks ht.intact matcher ls
      (fun l hl => by
        obtain ⟨k, -, rfl⟩ := List.mem_map.1 hl
        exact ht.normalize_free k)
      (sortedLinks_names ht.links _)
    refine (tryOpenAll_aligned (ls.filter (·.up)) ?_).of_roster (syncCapture_roster _)
    refine ⟨?_, hn, ht.links, fun a ha => (hhas a).2 (.inl (ht.present a ha)), fun a ha => ?_⟩
    · dsimp only
      rw [Topology.matchLinks_snd]
      exact ht.intact.resolveAll _
    · rcases (hhas a).1 ha with ha | ⟨l, hl, hu, -, rfl⟩
      · exact (ht.manned a ha).imp_right fun hm => absurd hm List.not_mem_nil
      · rw [List.append_nil]
        exact .inr (List.mem_map.2 ⟨l, List.mem_filter.2 ⟨hl, hu⟩, rfl⟩)

theorem associate_aligned (h : Aligned n p) (gid : GroupId) :
    Aligned ({ n with topology := (n.topology.associate gid).2 } : Node).syncCapture p :=
  (h.of_sameNames (h.intact.associate gid) (Topology.associate_sameNames _ gid)).of_roster
    (syncCapture_roster _)

theorem addConcreteMember_aligned (h : Aligned n p) (group : GroupId) (member : String)
    (role : Role) : Aligned (n.addConcreteMember group member role).2 p := by
  have ha := addInterface_aligned h member
  unfold addConcreteMember
  dsimp only
  split
  · exact ha
  · rename_i topology hm
    have ht : Aligned { (n.addInterface member).2 with topology } p :=
      ha.of_sameNames (ha.intact.addMember hm) (Topology.addMember_sameNames hm)
    have hopen : Aligned { (n.addInterface member).2 with topology } ((n.addInterface member).1 :: p) :=
      ⟨ht.intact, ht.named, ht.links, ht.present, fun a hm =>
        (ht.manned a hm).imp_right (List.mem_cons_of_mem _)⟩
    have ho := openDevices_aligned hopen
    split
    · rename_i he
      rw [he] at ho
      exact ho
    · rename_i he
      rw [he] at ho
      exact associate_aligned ho group

theorem addMember_aligned (h : Aligned n []) (group member : String) (role : Role) :
    Aligned (n.addMember group member role).2 [] := by
  unfold addMember
  split
  · exact h
  · split
    · exact addWildcardMember_aligned h _ _ _
    · exact addConcreteMember_aligned h _ _ _

theorem removeMember_aligned (h : Aligned n p) {group member : String}
    (hm : n.removeMember group member = .ok m) : Aligned m p := by
  obtain ⟨gid, -, hm⟩ := ok_of_bind hm
  obtain ⟨id, -, hm⟩ := ok_of_bind hm
  obtain ⟨⟨destroyed, topology⟩, hr, hm⟩ := ok_of_bind hm
  cases hm
  cases ht : n.topology.removeMember gid id with
  | error e =>
    rw [ht] at hr
    cases hr
  | ok r =>
    rw [ht] at hr
    cases hr
    obtain ⟨hn, hhas⟩ := h.named.removeMember ht
    have hi := h.intact.removeMember ht
    cases destroyed with
    | true =>
      refine h.of_dropped [id] (dropStation_graph _ id) hi ⟨hn, fun a => ?_⟩ fun a => ?_
      · simpa using hhas a
      · exact (dropStation_mans _ id).trans (by rw [List.mem_singleton]; rfl)
    | false =>
      refine h.of_dropped [] (.refl _) hi ⟨hn, fun a => ?_⟩ fun a => ?_
      · simpa using hhas a
      · simp [Mans]

theorem removeGroup_aligned (h : Aligned n p) {group : String} {gone : List InterfaceId}
    (hm : n.removeGroup group = .ok (gone, m)) : Aligned m p := by
  obtain ⟨gid, -, hm⟩ := ok_of_bind hm
  obtain ⟨⟨ids, topology⟩, hr, hm⟩ := ok_of_bind hm
  cases hm
  cases ht : n.topology.removeGroup gid with
  | error e =>
    rw [ht] at hr
    cases hr
  | ok r =>
    rw [ht] at hr
    cases hr
    refine (h.of_dropped gone (dropAll_graph _ _) (h.intact.removeGroup ht) (h.named.removeGroup ht)
      fun a => ?_).of_roster (syncCapture_roster _)
    exact dropAll_mans _ _

/-! ## Runs -/

theorem new_aligned (settings : NodeSettings) : Aligned (new settings) [] where
  intact := Topology.empty_intact
  named := Topology.empty_named
  links := List.nodup_nil
  present _ h := absurd h List.not_mem_nil
  manned _ h := absurd h List.not_mem_nil

theorem setLinks_aligned (h : Aligned n p) (links : List Link) : Aligned (n.setLinks links) p where
  intact := h.intact
  named := h.named
  links := List.foldlRecOn links _
    (motive := fun known : List Link => (known.map Link.name).Nodup) List.nodup_nil
    fun _ hk l _ => Keyed.nodup_put l hk
  present := h.present
  manned := h.manned

theorem orSame_aligned (h : Aligned n p) {r : Except NodeError Node}
    (hr : ∀ m, r = .ok m → Aligned m p) : Aligned (n.orSame r) p := by
  cases r with
  | error e => exact h
  | ok m => exact hr m rfl

theorem next_aligned (h : Aligned n []) (e : Event) (hm : n.next e = .ok m) : Aligned m [] := by
  cases e with
  | setOracle | refusals =>
    cases hm
    exact h.of_roster ⟨⟨rfl, rfl, rfl⟩, rfl⟩
  | setLinks links =>
    cases hm
    exact setLinks_aligned h links
  | linkUp link =>
    cases hm
    exact linkUp_aligned h link
  | linkDown name =>
    cases hm
    exact linkDown_aligned h name
  | addInterface name =>
    cases hm
    exact addInterface_aligned h name
  | setDevices name devices =>
    cases hm
    exact setDevices_aligned h name devices
  | bindVif name vif address =>
    cases hm
    exact bindVif_aligned h name vif address
  | setDeviceTx name device on =>
    cases hm
    exact h.of_roster (orSame_roster fun _ hm => setDeviceTx_roster hm)
  | setShadow name shadow =>
    cases hm
    exact h.of_roster (orSame_roster fun _ hm => modifyStation_roster hm)
  | setPolicy name policy =>
    cases hm
    exact h.of_roster (orSame_roster fun _ hm => modifyStation_roster hm)
  | setRateLimit name rate now =>
    obtain ⟨r, hr, rfl⟩ := ok_of_map hm
    exact h.of_roster (setRateLimit_roster hr)
  | setQueueDepth name depth =>
    cases hm
    exact h.of_roster (orSame_roster fun _ hm => setQueueDepth_roster hm)
  | modifyFlags name change =>
    cases hm
    refine orSame_aligned h fun m hm => ?_
    obtain ⟨id, -, hm⟩ := ok_of_bind hm
    cases hm
    exact modifyInterface_aligned h id fun _ => ⟨rfl, rfl, rfl⟩
  | addAddress name address =>
    cases hm
    refine orSame_aligned h fun m hm => ?_
    obtain ⟨id, -, hm⟩ := ok_of_bind hm
    cases hm
    refine modifyInterface_aligned h id fun i => ?_
    unfold Interface.addAddress
    split <;> exact ⟨rfl, rfl, rfl⟩
  | addGroup name mode relay =>
    cases hm
    exact h.of_sameNames (h.intact.addGroup name mode relay)
      (Topology.addGroup_sameNames _ name mode relay)
  | setGroupPolicy name policy tunnel resequence =>
    cases hm
    exact orSame_aligned h fun _ hm => setGroupPolicy_aligned h hm
  | addMember group member role =>
    cases hm
    exact addMember_aligned h group member role
  | associate group =>
    cases hm
    unfold associate
    split
    · exact h
    · exact associate_aligned h _
  | removeMember group member =>
    cases hm
    exact orSame_aligned h fun _ hm => removeMember_aligned h hm
  | removeGroup group =>
    cases hm
    refine orSame_aligned h fun _ hm => ?_
    obtain ⟨⟨gone, m⟩, hr, rfl⟩ := ok_of_map hm
    exact removeGroup_aligned h hr
  | forward destinations f now =>
    obtain ⟨⟨r, m⟩, hr, rfl⟩ := ok_of_map hm
    exact h.of_roster (forward_roster hr)
  | ingress id f now =>
    obtain ⟨⟨r, m⟩, hr, rfl⟩ := ok_of_map hm
    exact h.of_roster (ingress_roster hr)
  | poll now =>
    obtain ⟨⟨r, m⟩, hr, rfl⟩ := ok_of_map hm
    exact h.of_roster (poll_roster hr)
  | shutdown =>
    cases hm
    exact h.of_roster (shutdown_roster n)
  | channels change =>
    cases hm
    have hs := mapStations_roster n (g := (·.mapDevices (Device.meanwhile change))) fun _ => rfl
    exact h.of_roster ⟨⟨rfl, rfl, rfl⟩, hs.owners⟩

theorem reachable_aligned (h : Reachable n) : Aligned n [] := by
  induction h with
  | new settings => exact new_aligned settings
  | next e _ hm ih => exact next_aligned ih e hm

/-- Adapters and interfaces of a node belong together one by one, and so do interfaces and names. -/
structure InStep (n : Node) : Prop where
  manned : ∀ id, (n.station? id).isSome ↔ (n.topology.interface? id).isSome
  /-- An adapter is found under its owner and nowhere else. -/
  owned : ∀ id a, n.station? id = some a ↔ a ∈ n.stations.adapters ∧ a.owner = id
  found : ∀ i ∈ n.topology.interfaces, n.topology.interfaceNamed? i.name = some i
  names : (n.topology.interfaces.map Interface.name).Nodup

/-- Whatever was asked of a node, its adapters are those of its interfaces, and a name is that of one
interface. Indices made up for names never run out: they are numbers without a bound. -/
theorem reachable_inStep (h : Reachable n) : InStep n := by
  have ha := reachable_aligned h
  have found : ∀ i ∈ n.topology.interfaces, n.topology.interfaceNamed? i.name = some i := by
    intro i hi
    have hg := ha.intact.interface?_eq.2 ⟨hi, rfl⟩
    have hh := (ha.named i.name i.id).2 (congrArg (Option.map Interface.name) hg)
    exact Option.bind_eq_some_iff.2 ⟨i.id, hh, hg⟩
  refine ⟨fun id => ?_, fun id a => Keyed.get?_eq_some_iff (reachable_balanced h).owners, found, ?_⟩
  · rw [← mans_iff, Option.isSome_iff_exists, ← Topology.has_iff]
    exact ⟨ha.present id, fun hid => (ha.manned id hid).resolve_right List.not_mem_nil⟩
  · refine List.Nodup.map_on (fun i hi j hj hn => ?_) (List.Nodup.of_map _ ha.intact.ids)
    have hij := (found i hi).symm.trans (hn ▸ found j hj)
    exact Option.some.inj hij

/-- A link that takes over the index of another renames the interface, which keeps its adapter. -/
theorem reused_index_inStep : ∃ n : Node, Reachable n ∧
    n.topology.interfaces.map Interface.name = ["ppp1", "wlan0"] ∧
    n.stations.adapters.map Adapter.owner = [⟨10⟩, ⟨syntheticBase + 1⟩] ∧ InStep n := by
  have fresh : Reachable (new { poolSize := 1, frameSize := 1 }) := .new _
  have grouped := fresh.next (.addGroup "ppp" .merge .classicalFlooding) rfl
  have waiting := grouped.next (.addMember "ppp" "ppp#" .destination) rfl
  have joined := waiting.next (.addMember "ppp" "wlan0" .destination) rfl
  have dialled := joined.next (.linkUp ⟨"ppp0", 10, true⟩) rfl
  have redialled := dialled.next (.linkUp ⟨"ppp1", 10, true⟩) rfl
  exact ⟨_, redialled, by decide +kernel, by decide +kernel, reachable_inStep redialled⟩

end Node
end MulticastRelay
