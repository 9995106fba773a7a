import MulticastRelay.Proofs.Adapter.SoftwareInterface
import MulticastRelay.Proofs.Config.GroupsRestored
import MulticastRelay.Proofs.Topology.Bindings

/-! # Software interfaces

The software interface that the binding of an interface names is the one that its adapter is bound to.
Both are set in one operation and go together when the interface is destroyed; nothing else touches
either of them.
-/
namespace MulticastRelay

namespace Topology

variable {t u : Topology} {id x : InterfaceId} {gid : GroupId} {m : Matcher} {link : Link}

/-- The software interface in the binding of an interface. -/
def vif? (t : Topology) (id : InterfaceId) : Option String := (t.interface? id).bind (·.binding.vif?)

theorem vif?_of_interfaces (h : u.interfaces = t.interfaces) (x : InterfaceId) : u.vif? x = t.vif? x := by
  unfold vif? interface?
  rw [h]

theorem vif?_modifyInterface {f : Interface → Interface} (hid : ∀ i, (f i).id = i.id)
    (hf : ∀ i, (f i).binding.vif? = i.binding.vif?) (x : InterfaceId) :
    (t.modifyInterface id f).vif? x = t.vif? x := by
  unfold vif?
  rw [interface?_modifyInterface fun i hi => (hid i).trans hi]
  split
  · rename_i hx
    rw [hx, Option.bind_map]
    exact congrArg ((t.interface? id).bind ·) (funext hf)
  · rfl

/-- A new interface has no software interface, and one that is renamed keeps its own. -/
theorem Intact.vif?_addInterface (h : Intact t) (id : InterfaceId) (name : String) (x : InterfaceId) :
    (t.addInterface id name).vif? x = t.vif? x := by
  unfold Topology.addInterface
  cases hi : t.interface? id with
  | none =>
    obtain ⟨hp, hn⟩ := insert_new name h.ids hi
    have hg := Keyed.get?_of_perm_cons hp hn x
    unfold vif? interface?
    dsimp only
    rw [hg]
    split
    · rename_i he
      have he : id = x := he
      rw [← he]
      have hnone : Keyed.get? Interface.id id t.interfaces = none := hi
      rw [hnone]
      rfl
    · rfl
  | some i =>
    exact vif?_modifyInterface (f := fun i => { i with name }) (fun _ => rfl) (fun _ => rfl) x

theorem vif?_removeInterface (t : Topology) (id x : InterfaceId) :
    (t.removeInterface id).vif? x = if x = id then none else t.vif? x := by
  cases hi : t.interface? id with
  | none =>
    rw [removeInterface_of_none hi]
    split
    · rename_i hx
      unfold vif?
      rw [hx, hi]
      rfl
    · rfl
  | some i =>
    rw [removeInterface_eq hi]
    unfold vif? interface?
    dsimp only
    rw [Keyed.get?_map (f := survivor id (t.derivedGroups id)) fun _ => rfl, Keyed.get?_erase,
      Option.bind_map]
    split <;> rfl

theorem Intact.vif?_associate (h : Intact t) (gid : GroupId) (x : InterfaceId) :
    (t.associate gid).2.vif? x = t.vif? x := by
  have hb := congrArg (Option.bind · (·.binding.vif?)) (h.bare_associate (x := x) gid)
  simp only [Option.bind_map] at hb
  exact hb

theorem Intact.vif?_associateAll (h : Intact t) (gids : List GroupId) (x : InterfaceId) :
    (t.associateAll gids).2.vif? x = t.vif? x := by
  rw [associateAll_snd]
  induction gids generalizing t with
  | nil => rfl
  | cons gid gids ih => exact (ih (h.associate gid)).trans (h.vif?_associate gid x)

theorem Intact.vif?_resolve (h : Intact t) (m : Matcher) (link : Link) (x : InterfaceId) :
    (t.resolve m link).2.vif? x = t.vif? x := by
  have hadd := h.vif?_addInterface ⟨link.index⟩ link.name x
  rcases h.resolve_cases m link with ⟨-, e, he⟩ | ⟨touched, u, hb, he⟩
  · rw [he]
    exact hadd
  · rw [he]
    have hu := hb.intact (h.addInterface ⟨link.index⟩ link.name) (h.addInterface_has _ _)
    exact (hu.vif?_associateAll touched x).trans ((vif?_of_interfaces hb.interfaces x).trans hadd)

theorem Intact.vif?_resolveAll (h : Intact t) (ps : List (Matcher × Link)) (x : InterfaceId) :
    (t.resolveAll ps).vif? x = t.vif? x := by
  induction ps generalizing t with
  | nil => rfl
  | cons p ps ih => exact (ih (h.resolve p.1 p.2)).trans (h.vif?_resolve p.1 p.2 x)

theorem vif?_removeOrphans (ids : List InterfaceId) (t : Topology) (x : InterfaceId) :
    (t.removeOrphans ids).2.vif? x = if x ∈ (t.removeOrphans ids).1 then none else t.vif? x := by
  induction ids generalizing t with
  | nil => exact (if_neg List.not_mem_nil).symm
  | cons id ids ih =>
    unfold removeOrphans removeIfOrphan
    by_cases ho : ((t.groupsOf id).isEmpty && (t.interface? id).isSome) = true
    · simp only [ho, if_true]
      rw [ih, vif?_removeInterface]
      by_cases hx : x = id
      · simp [hx]
      · simp [hx]
    · simp only [ho]
      exact ih t

theorem vif?_removeMember {r : Bool × Topology} (hr : t.removeMember gid id = .ok r)
    (x : InterfaceId) : r.2.vif? x = if r.1 = true ∧ x = id then none else t.vif? x := by
  unfold removeMember at hr
  split at hr
  · cases hr
  · split at hr
    · cases hr
    · dsimp only at hr
      split at hr
      · cases hr
        rw [vif?_removeInterface]
        simp only [true_and]
        rfl
      · cases hr
        exact (if_neg fun h => Bool.false_ne_true h.1).symm

theorem vif?_dropGroup (t : Topology) (gid : GroupId) (x : InterfaceId) :
    (t.dropGroup gid).vif? x = t.vif? x := by
  cases hg : t.group? gid with
  | none => rw [dropGroup_of_none hg]
  | some g =>
    unfold vif?
    rw [interface?_dropGroup hg, Option.bind_map]
    rfl

theorem vif?_removeGroup {r : List InterfaceId × Topology} (hr : t.removeGroup gid = .ok r)
    (x : InterfaceId) : r.2.vif? x = if x ∈ r.1 then none else t.vif? x := by
  unfold removeGroup at hr
  split at hr
  · cases hr
  · cases hr
    rw [vif?_removeOrphans, vif?_dropGroup]
    rfl

end Topology

namespace Stations

variable {s t : Stations} {a b : Station} {id x : InterfaceId} {f : Frame} {now : Instant}

/-- The software interface that an adapter is bound to. -/
def vif? (s : Stations) (id : InterfaceId) : Option VifBinding := (s.get? id).bind (·.vif)

theorem vif?_replace (ha : s.get? id = some a) (hb : b.bond = a.bond) (x : InterfaceId) :
    (s.replace b).vif? x = s.vif? x := by
  obtain ⟨howner, hvif⟩ := Prod.mk.inj hb
  have hid : b.owner = id := howner.trans (get?_owner ha)
  unfold vif?
  rw [get?_replace (hid.symm ▸ ha)]
  by_cases hx : x = b.owner
  · rw [if_pos hx, hx, hid, ha]
    exact hvif
  · rw [if_neg hx]

theorem vif?_map {g : Station → Station} (hg : ∀ a, (g a).bond = a.bond) (p : Pool)
    (x : InterfaceId) : (⟨s.adapters.map g, p⟩ : Stations).vif? x = s.vif? x := by
  have howner : ∀ a, (g a).owner = a.owner := fun a => congrArg Prod.fst (hg a)
  unfold vif? get?
  dsimp only
  rw [Keyed.get?_map howner, Option.bind_map]
  exact congrArg ((Keyed.get? Adapter.owner x s.adapters).bind ·)
    (funext fun a => congrArg Prod.snd (hg a))

/-- A new adapter is bound to none. -/
theorem vif?_insert (hfree : s.get? b.owner = none) (hv : b.vif = none) (x : InterfaceId) :
    (s.insert b).vif? x = s.vif? x := by
  unfold vif?
  rw [get?_insert hfree]
  split
  · rename_i hx
    rw [← hx, hfree]
    exact hv
  · rfl

theorem vif?_erase (s : Stations) (id x : InterfaceId) :
    (s.erase id).vif? x = if x = id then none else s.vif? x := by
  unfold vif? erase get?
  rw [Keyed.get?_erase]
  split <;> rfl

theorem vif?_transmit {priority : Bool} {r : Except AdapterError Delivery} (ha : s.get? id = some a)
    (h : s.transmit a f priority now = .ok (r, t)) (x : InterfaceId) : t.vif? x = s.vif? x := by
  obtain ⟨⟨result, b, p⟩, hb, h⟩ := ok_of_bind h
  cases h
  exact vif?_replace ha (Adapter.transmit_bond hb) x

theorem vif?_deliver {priority : Bool} (destinations : List InterfaceId) {r r' : DispatchReport}
    (h : deliver f priority now destinations r s = .ok (r', t)) (x : InterfaceId) :
    t.vif? x = s.vif? x := by
  induction destinations generalizing r s with
  | nil =>
    cases h
    rfl
  | cons dest rest ih =>
    unfold deliver at h
    split at h
    · exact ih h
    · rename_i a ha
      obtain ⟨⟨result, u⟩, hu, h⟩ := ok_of_bind h
      exact (ih h).trans (vif?_transmit ha hu x)

theorem vif?_dispatch {destinations : List InterfaceId} {r : DispatchReport}
    (h : s.dispatch destinations f now = .ok (r, t)) (x : InterfaceId) : t.vif? x = s.vif? x :=
  vif?_deliver destinations h x

end Stations

namespace Node

variable {n m k : Node} {a b : Station} {id x : InterfaceId} {name : String} {f : Frame}
  {now : Instant} {p : List InterfaceId}

theorem vif?_relay {s t : Stations} {tunnelled plain : List InterfaceId} {g : Frame}
    {r : DispatchReport} {expired : Bool} (h : relay s tunnelled plain f now = .ok (g, r, expired, t))
    (x : InterfaceId) : t.vif? x = s.vif? x := by
  rw [relay_eq] at h
  obtain ⟨⟨report, u⟩, hu, h⟩ := ok_of_bind h
  have hd := Stations.vif?_dispatch hu x
  dsimp only at h
  split at h
  · cases h
    exact hd
  · split at h
    · cases h
      exact hd
    · obtain ⟨⟨more, v⟩, hv, h⟩ := ok_of_bind h
      cases h
      exact (Stations.vif?_dispatch hv x).trans hd

/-! ## Operations that leave both sides alone -/

/-- Interfaces and adapters keep the software interfaces that they have. -/
structure SameVifs (n m : Node) : Prop where
  interfaces : ∀ x, m.topology.vif? x = n.topology.vif? x
  adapters : ∀ x, m.stations.vif? x = n.stations.vif? x

namespace SameVifs

theorem refl (n : Node) : SameVifs n n := ⟨fun _ => rfl, fun _ => rfl⟩

theorem trans (h : SameVifs n m) (h' : SameVifs m k) : SameVifs n k :=
  ⟨fun x => (h'.interfaces x).trans (h.interfaces x), fun x => (h'.adapters x).trans (h.adapters x)⟩

/-- Only the topology changes. -/
theorem of_topology {t : Topology} (h : ∀ x, t.vif? x = n.topology.vif? x) :
    SameVifs n { n with topology := t } :=
  ⟨h, fun _ => rfl⟩

end SameVifs

theorem orSame_vifs {r : Except NodeError Node} (h : ∀ m, r = .ok m → SameVifs n m) :
    SameVifs n (n.orSame r) := by
  cases r with
  | error e => exact .refl n
  | ok m => exact h m rfl

theorem setStation_vifs (ha : n.station? id = some a) (hb : b.bond = a.bond) :
    SameVifs n (n.setStation b) :=
  ⟨fun _ => rfl, Stations.vif?_replace ha hb⟩

theorem mapStations_vifs (n : Node) {g : Station → Station} (hg : ∀ a, (g a).bond = a.bond) :
    SameVifs n { n with stations := { n.stations with adapters := n.stations.adapters.map g } } :=
  ⟨fun _ => rfl, Stations.vif?_map hg _⟩

theorem syncCapture_vifs (n : Node) : SameVifs n n.syncCapture := mapStations_vifs n fun _ => rfl

theorem modifyStation_vifs {g : Station → Station} (hg : ∀ a, (g a).bond = a.bond)
    (h : n.modifyStation name g = .ok m) : SameVifs n m := by
  obtain ⟨a, ha, h⟩ := ok_of_bind h
  cases h
  obtain ⟨id, hs⟩ := stationNamed_station ha
  exact setStation_vifs hs (hg a)

theorem setDeviceTx_vifs {device : String} {on : Bool} (h : n.setDeviceTx name device on = .ok m) :
    SameVifs n m := by
  obtain ⟨a, ha, h⟩ := ok_of_bind h
  obtain ⟨id, hs⟩ := stationNamed_station ha
  split at h
  · rename_i b hb
    cases h
    exact setStation_vifs hs (Adapter.modifyElement_bond hb)
  · cases h

theorem setRateLimit_vifs {rate : Float} {r : Except NodeError Node}
    (h : n.setRateLimit name rate now = .ok r) : SameVifs n (n.orSame r) := by
  unfold setRateLimit at h
  split at h
  · cases h
    exact .refl n
  · rename_i a ha
    obtain ⟨b, hb, h⟩ := ok_of_bind h
    cases h
    obtain ⟨id, hs⟩ := stationNamed_station ha
    exact setStation_vifs hs (Adapter.setRateLimit_bond hb)

theorem setQueueDepth_vifs {depth : QueueDepth} (h : n.setQueueDepth name depth = .ok m) :
    SameVifs n m := by
  obtain ⟨a, ha, h⟩ := ok_of_bind h
  cases h
  obtain ⟨id, hs⟩ := stationNamed_station ha
  exact ⟨fun _ => rfl, Stations.vif?_replace hs (Adapter.setQueueDepth_bond a n.stations.pool depth)⟩

theorem modifyInterface_vifs (n : Node) (id : InterfaceId) {f : Interface → Interface}
    (hid : ∀ i, (f i).id = i.id) (hf : ∀ i, (f i).binding.vif? = i.binding.vif?) :
    SameVifs n { n with topology := n.topology.modifyInterface id f } :=
  .of_topology (Topology.vif?_modifyInterface hid hf)

/-! ### Traffic -/

theorem forward_vifs {destinations : List InterfaceId} {delivered : Bool}
    (h : n.forward destinations f now = .ok (delivered, m)) : SameVifs n m := by
  obtain ⟨⟨report, stations⟩, hs, h⟩ := ok_of_bind h
  cases h
  exact ⟨fun _ => rfl, Stations.vif?_dispatch hs⟩

theorem ingress_vifs {r : Bool × Frame} (h : n.ingress id f now = .ok (r, m)) : SameVifs n m := by
  unfold ingress at h
  dsimp only at h
  split at h
  · cases h
    exact ⟨fun _ => rfl, fun _ => rfl⟩
  · cases h
    exact ⟨fun _ => rfl, fun _ => rfl⟩
  · cases h
    exact ⟨fun _ => rfl, fun _ => rfl⟩
  · cases h
    exact ⟨fun _ => rfl, fun _ => rfl⟩
  · cases h
    exact ⟨fun _ => rfl, fun _ => rfl⟩
  · obtain ⟨⟨g, report, expired, stations⟩, hs, h⟩ := ok_of_bind h
    have hr := vif?_relay hs
    dsimp only at h
    split at h
    · cases h
      exact ⟨fun _ => rfl, hr⟩
    · split at h
      · cases h
        exact ⟨fun _ => rfl, hr⟩
      · cases h
        exact ⟨fun _ => rfl, hr⟩

theorem serve_vifs {captured : List Buffer} (h : n.serve id now = .ok (captured, m)) :
    SameVifs n m := by
  unfold serve at h
  split at h
  · cases h
    exact .refl n
  · rename_i a ha
    obtain ⟨⟨fired, b, p⟩, hb, h⟩ := ok_of_bind h
    have timed : b.bond = a.bond := Adapter.onTimer_bond hb
    dsimp only at h
    split at h
    all_goals
      obtain ⟨⟨c, q⟩, hc, h⟩ := ok_of_bind h
      have told : c.bond = b.bond := by
        first
        | exact (Adapter.onOutputReady_bond hc :)
        | (cases hc; rfl)
      dsimp only at h
      split at h
      all_goals
        obtain ⟨⟨d, r⟩, hd, h⟩ := ok_of_bind h
        have fed : d.bond = c.bond := by
          first
          | exact Adapter.onSourceReady_bond hd
          | (cases hd; rfl)
        cases h
        exact ⟨fun _ => rfl, Stations.vif?_replace ha (fed.trans (told.trans timed))⟩

theorem serveAll_vifs {ids : List InterfaceId} {captured : List (InterfaceId × Buffer)}
    (h : n.serveAll now ids = .ok (captured, m)) : SameVifs n m := by
  induction ids generalizing n captured with
  | nil =>
    cases h
    exact .refl _
  | cons id ids ih =>
    obtain ⟨⟨first, u⟩, hu, h⟩ := ok_of_bind h
    obtain ⟨⟨more, v⟩, hv, h⟩ := ok_of_bind h
    cases h
    exact (serve_vifs hu).trans (ih hv)

theorem ingressAll_vifs {captured : List (InterfaceId × Buffer)}
    (h : n.ingressAll now captured = .ok m) : SameVifs n m := by
  induction captured generalizing n with
  | nil =>
    cases h
    exact .refl _
  | cons c rest ih =>
    obtain ⟨⟨r, u⟩, hu, h⟩ := ok_of_bind h
    have put : SameVifs u (u.putBuffer c.2) := ⟨fun _ => rfl, fun _ => rfl⟩
    exact ((ingress_vifs hu).trans put).trans (ih h)

theorem poll_vifs {captured : Nat} (h : n.poll now = .ok (captured, m)) : SameVifs n m := by
  obtain ⟨⟨frames, u⟩, hu, h⟩ := ok_of_bind h
  obtain ⟨v, hv, h⟩ := ok_of_bind h
  cases h
  exact (serveAll_vifs hu).trans (ingressAll_vifs hv)

theorem closeAll_eq_map (as : List Station) (p : Pool) :
    (closeAll as p).1 = as.map fun a => (a.close p).1 := by
  induction as generalizing p with
  | nil => rfl
  | cons a as ih => exact congrArg ((a.close p).1 :: ·) (ih (a.close p).2)

theorem shutdown_vifs (n : Node) : SameVifs n n.shutdown := by
  refine ⟨fun _ => rfl, fun x => ?_⟩
  unfold shutdown
  dsimp only
  rw [closeAll_eq_map]
  exact Stations.vif?_map (fun a => Adapter.close_bond a n.stations.pool) _ x

/-! ### Interfaces and devices -/

theorem ensureStation_vifs (n : Node) (id : InterfaceId) (name : String) :
    SameVifs n (n.ensureStation id name) := by
  unfold ensureStation
  split
  · exact .refl n
  · rename_i hs
    obtain ⟨howner, hvif⟩ := Prod.mk.inj (Adapter.setQueueDepth_bond (Adapter.new id name : Station)
      n.stations.pool n.settings.defaultQueue)
    have hfree : n.stations.get? id = none := Option.not_isSome_iff_eq_none.1 hs
    exact ⟨fun _ => rfl, Stations.vif?_insert (howner ▸ hfree) hvif⟩

theorem addInterface_vifs (h : n.topology.Intact) (name : String) :
    SameVifs n (n.addInterface name).2 := by
  obtain ⟨ht, -⟩ := indexFor_graph n name
  refine SameVifs.trans (m := { (n.indexFor name).2 with
    topology := (n.indexFor name).2.topology.addInterface (n.indexFor name).1 name })
    ⟨fun x => ?_, fun x => ?_⟩ (ensureStation_vifs _ _ name)
  · dsimp only
    rw [ht]
    exact h.vif?_addInterface _ name x
  · dsimp only
    rw [indexFor_stations]

theorem attachAll_bond {host final : Host} {r : Except NodeError Unit} (devices : List String)
    (h : attachAll a host devices = (r, b, final)) : b.bond = a.bond := by
  induction devices generalizing a host with
  | nil =>
    cases h
    rfl
  | cons device rest ih =>
    unfold attachAll at h
    split at h
    · cases h
      rfl
    · exact (ih h :)

theorem detachAll_bond {host final : Host} {r : Except NodeError Unit} (names : List String)
    (h : detachAll a host names = (r, b, final)) : b.bond = a.bond := by
  induction names generalizing a host with
  | nil =>
    cases h
    rfl
  | cons name rest ih =>
    unfold detachAll at h
    split at h
    · cases h
      rfl
    · rename_i e c hc
      exact (ih h).trans (Adapter.removeElement_bond hc)

theorem attachMissing_bond {host final : Host} {r : Except NodeError Unit} (devices : List String)
    (h : attachMissing a host devices = (r, b, final)) : b.bond = a.bond := by
  induction devices generalizing a host with
  | nil =>
    cases h
    rfl
  | cons device rest ih =>
    unfold attachMissing at h
    split at h
    · exact ih h
    · split at h
      · cases h
        rfl
      · exact (ih h :)

theorem openDevices_vifs (n : Node) (id : InterfaceId) : SameVifs n (n.openDevices id).2 := by
  unfold openDevices
  split
  · exact .refl n
  · rename_i i _
    have hm := ensureStation_vifs n id i.name
    dsimp only
    split
    · exact hm
    · rename_i a ha
      split
      · exact hm
      · exact hm.trans ⟨fun _ => rfl, Stations.vif?_replace ha (attachAll_bond _ rfl)⟩

theorem tryOpenAll_vifs (ls : List Link) (n : Node) :
    SameVifs n (ls.foldl (fun n l => n.tryOpenDevices ⟨l.index⟩) n) := by
  induction ls generalizing n with
  | nil => exact .refl n
  | cons l ls ih => exact (openDevices_vifs n ⟨l.index⟩).trans (ih _)

/-- A change of devices leaves the software interface of a binding alone. -/
theorem withDevices_vif? (b : DeviceBinding) (devices : List String) :
    (b.withDevices devices).vif? = b.vif? := by
  cases b with
  | physical => exact Config.ofDevices_vif? devices
  | composite => exact Config.ofDevices_vif? devices
  | virtual => rfl

theorem setDevices_vifs (h : n.topology.Intact) (name : String) (devices : List String) :
    SameVifs n (n.setDevices name devices).2 := by
  unfold setDevices
  split
  · exact .refl n
  · have hm := (addInterface_vifs h name).trans (modifyInterface_vifs (n.addInterface name).2
      (n.addInterface name).1 (f := fun i => { i with binding := i.binding.withDevices devices })
      (fun _ => rfl) fun i => withDevices_vif? i.binding devices)
    dsimp only
    split
    · exact hm
    · rename_i a ha
      have hd : (detachAll a (n.addInterface name).2.host
          ((a.elements.map Element.name).filter fun e => !devices.contains e)).2.1.bond = a.bond :=
        detachAll_bond _ rfl
      split
      · exact hm.trans ⟨fun _ => rfl, Stations.vif?_replace ha hd⟩
      · exact hm.trans
          ⟨fun _ => rfl, Stations.vif?_replace ha ((attachMissing_bond devices rfl).trans hd)⟩

/-! ### Links and groups -/

theorem linkUp_vifs (h : n.topology.Intact) (link : Link) : SameVifs n (n.linkUp link).2 := by
  let l := ({ n with links := putLink n.links link } : Node).normalize link
  have hup : SameVifs n { n with
      links := putLink n.links link
      topology := (n.topology.linkUp l).2 } := by
    refine ⟨fun x => ?_, fun _ => rfl⟩
    have hnext := Topology.next_linkUp n.topology l
    have hx := h.vif?_resolveAll (n.topology.bindings (.linkUp l)) x
    rw [← hnext] at hx
    exact hx
  exact hup.trans ((openDevices_vifs _ _).trans (syncCapture_vifs _))

theorem addWildcardMember_vifs (h : n.topology.Intact) (group : GroupId) (stem : String)
    (role : Role) : SameVifs n (n.addWildcardMember group stem role).2 := by
  unfold addWildcardMember
  split
  · exact .refl n
  · rename_i matcher topology hm
    let ls := (({ n with topology } : Node).sortedLinks.filter fun l => matcher.accepts l.name).map
      ({ n with topology } : Node).normalize
    have hmatch : SameVifs n { n with topology := (topology.matchLinks matcher ls).2 } := by
      refine .of_topology fun x => ?_
      rw [Topology.matchLinks_snd, (h.addMatcher hm).vif?_resolveAll]
      exact Topology.vif?_of_interfaces (Topology.addMatcher_interfaces hm) x
    exact hmatch.trans ((tryOpenAll_vifs _ _).trans (syncCapture_vifs _))

theorem associate_vifs (h : n.topology.Intact) (gid : GroupId) :
    SameVifs n ({ n with topology := (n.topology.associate gid).2 } : Node).syncCapture :=
  (SameVifs.of_topology (h.vif?_associate gid)).trans (syncCapture_vifs _)

theorem addConcreteMember_vifs (h : Aligned n p) (group : GroupId) (member : String) (role : Role) :
    SameVifs n (n.addConcreteMember group member role).2 := by
  have ha := addInterface_vifs h.intact member
  have hi := (addInterface_aligned h member).intact
  unfold addConcreteMember
  dsimp only
  split
  · exact ha
  · rename_i topology hm
    have ht : SameVifs n { (n.addInterface member).2 with topology } :=
      ha.trans (.of_topology (Topology.vif?_of_interfaces (Topology.addMember_interfaces hm)))
    have ho := openDevices_vifs { (n.addInterface member).2 with topology } (n.addInterface member).1
    have hg := openDevices_graph { (n.addInterface member).2 with topology } (n.addInterface member).1
    split
    · rename_i he
      rw [he] at ho
      exact ht.trans ho
    · rename_i k he
      rw [he] at ho hg
      have htopology : k.topology = topology := hg.topology
      have hk : k.topology.Intact := htopology.symm ▸ hi.addMember hm
      exact (ht.trans ho).trans (associate_vifs hk group)

theorem addMember_vifs (h : Aligned n p) (group member : String) (role : Role) :
    SameVifs n (n.addMember group member role).2 := by
  unfold addMember
  split
  · exact .refl n
  · split
    · exact addWildcardMember_vifs h.intact _ _ _
    · exact addConcreteMember_vifs h _ _ _

/-! ## Both sides -/

/-- The software interface in the binding of each interface is the one its adapter is bound to. -/
def Tunnelled (n : Node) : Prop :=
  ∀ x, n.topology.vif? x = (n.stations.vif? x).map VifBinding.name

namespace Tunnelled

theorem of_same (h : Tunnelled n) (hs : SameVifs n m) : Tunnelled m := by
  intro x
  rw [hs.interfaces, hs.adapters]
  exact h x

/-- Interfaces that are gone take what they were bound to with them. -/
theorem of_dropped {t : Topology} (h : Tunnelled n) (gone : List InterfaceId)
    (ht : ∀ x, t.vif? x = if x ∈ gone then none else n.topology.vif? x)
    (hm : m.topology = t)
    (hs : ∀ x, m.stations.vif? x = if x ∈ gone then none else n.stations.vif? x) : Tunnelled m := by
  intro x
  rw [hm, ht, hs]
  split
  · rfl
  · exact h x

end Tunnelled

theorem dropStation_vif? (n : Node) (id x : InterfaceId) :
    (n.dropStation id).stations.vif? x = if x = id then none else n.stations.vif? x := by
  unfold dropStation
  split
  · rename_i hs
    split
    · rename_i hx
      have hnone : n.stations.get? id = none := hs
      unfold Stations.vif?
      rw [hx, hnone]
      rfl
    · rfl
  · exact Stations.vif?_erase _ id x

theorem dropAll_vif? (ids : List InterfaceId) (n : Node) (x : InterfaceId) :
    (ids.foldl dropStation n).stations.vif? x = if x ∈ ids then none else n.stations.vif? x := by
  induction ids generalizing n with
  | nil => exact (if_neg List.not_mem_nil).symm
  | cons id ids ih =>
    rw [List.foldl_cons, ih, dropStation_vif?]
    by_cases hx : x = id
    · simp [hx]
    · simp [hx]

theorem destroyInterface_tunnelled (h : Tunnelled n) (id : InterfaceId) :
    Tunnelled (n.destroyInterface id) := by
  refine h.of_dropped [id] (fun x => ?_) (dropStation_graph _ id).topology fun x => ?_
  · rw [Topology.vif?_removeInterface]
    simp only [List.mem_singleton]
  · have hd := dropStation_vif? { n with topology := n.topology.removeInterface id } id x
    simp only [List.mem_singleton]
    exact hd

theorem linkDown_tunnelled (h : Tunnelled n) (name : String) : Tunnelled (n.linkDown name).2 := by
  have hdown : Tunnelled { n with
      links := Keyed.modify Link.name name (fun l => { l with up := false }) n.links } := h
  unfold linkDown
  dsimp only
  split
  · exact hdown
  · exact (destroyInterface_tunnelled hdown _).of_same (syncCapture_vifs _)

theorem removeMember_tunnelled (h : Tunnelled n) {group member : String}
    (hm : n.removeMember group member = .ok m) : Tunnelled m := by
  obtain ⟨gid, -, hm⟩ := ok_of_bind hm
  obtain ⟨id, -, hm⟩ := ok_of_bind hm
  obtain ⟨⟨destroyed, topology⟩, hr, hm⟩ := ok_of_bind hm
  cases hm
  cases ht : n.topology.removeMember gid id with
  | error e =>
    rw [ht] at hr
    cases hr
  | ok r =>
    rw [ht] at hr
    cases hr
    have hvif := Topology.vif?_removeMember ht
    cases destroyed with
    | true =>
      refine h.of_dropped [id] (fun x => ?_) (dropStation_graph _ id).topology fun x => ?_
      · rw [hvif x]
        simp only [List.mem_singleton, true_and]
      · have hd := dropStation_vif? { n with topology } id x
        simp only [List.mem_singleton]
        exact hd
    | false =>
      refine h.of_dropped (t := topology) [] (fun x => ?_) rfl fun x => ?_
      · rw [hvif x]
        simp
      · simp

theorem removeGroup_tunnelled (h : Tunnelled n) {group : String} {gone : List InterfaceId}
    (hm : n.removeGroup group = .ok (gone, m)) : Tunnelled m := by
  obtain ⟨gid, -, hm⟩ := ok_of_bind hm
  obtain ⟨⟨ids, topology⟩, hr, hm⟩ := ok_of_bind hm
  cases hm
  cases ht : n.topology.removeGroup gid with
  | error e =>
    rw [ht] at hr
    cases hr
  | ok r =>
    rw [ht] at hr
    cases hr
    have hdropped := h.of_dropped gone (Topology.vif?_removeGroup ht)
      (dropAll_graph gone { n with topology }).topology (dropAll_vif? gone { n with topology })
    exact hdropped.of_same (syncCapture_vifs _)

theorem serves_of_interfaceId? (h : Aligned n []) (hid : n.interfaceId? name = .ok id) :
    ∃ i a, Config.Serves n name i a ∧ i.id = id := by
  unfold interfaceId? at hid
  cases hi : n.topology.interfaceNamed? name with
  | none =>
    rw [hi] at hid
    cases hid
  | some i =>
    rw [hi] at hid
    cases hid
    obtain ⟨a, ha⟩ := Config.exists_station h (Config.interface?_of_name h hi)
    exact ⟨i, a, ⟨hi, ha⟩, rfl⟩

/-- Binding a software interface sets both sides. -/
theorem bindVif_tunnelled (ha : Aligned n []) (h : Tunnelled n) (name vif : String)
    (address : LinkAddress) : Tunnelled (n.bindVif name vif address).2 := by
  cases hid : n.interfaceId? name with
  | error e =>
    unfold bindVif
    rw [hid]
    exact h
  | ok id =>
    cases hopen : n.host.open? vif with
    | error e =>
      unfold bindVif
      rw [hid]
      dsimp only
      rw [hopen]
      exact h
    | ok opened =>
      obtain ⟨i, a, hserves, rfl⟩ := serves_of_interfaceId? ha hid
      let f : Interface → Interface := fun i => { i with binding := .virtual vif i.binding.devices }
      let b : Station := (a.bindVif vif address).bindSource (.new opened.1)
      have hfound := Config.interface?_of_name ha hserves.interface
      rw [hserves.bindVif_eq hopen address]
      intro x
      have hinterface : (n.topology.modifyInterface i.id f).interface? x =
          if x = i.id then (n.topology.interface? i.id).map f else n.topology.interface? x :=
        Topology.interface?_modifyInterface fun _ hj => hj
      have hstation : (n.stations.replace b).get? x =
          if x = i.id then some b else n.stations.get? x :=
        hserves.station?_replace (b := b) (m := { n with stations := n.stations.replace b }) rfl rfl x
      have hbefore := h x
      unfold Topology.vif? Stations.vif? at hbefore ⊢
      dsimp only
      rw [hinterface, hstation]
      by_cases hx : x = i.id
      · rw [if_pos hx, if_pos hx, hfound]
        rfl
      · rw [if_neg hx, if_neg hx]
        exact hbefore

theorem next_tunnelled (ha : Aligned n []) (h : Tunnelled n) (e : Event) (hm : n.next e = .ok m) :
    Tunnelled m := by
  have hi := ha.intact
  cases e with
  | setOracle | setLinks | refusals =>
    cases hm
    exact h
  | linkUp link =>
    cases hm
    exact h.of_same (linkUp_vifs hi link)
  | linkDown name =>
    cases hm
    exact linkDown_tunnelled h name
  | addInterface name =>
    cases hm
    exact h.of_same (addInterface_vifs hi name)
  | setDevices name devices =>
    cases hm
    exact h.of_same (setDevices_vifs hi name devices)
  | bindVif name vif address =>
    cases hm
    exact bindVif_tunnelled ha h name vif address
  | setDeviceTx name device on =>
    cases hm
    exact h.of_same (orSame_vifs fun _ hm => setDeviceTx_vifs hm)
  | setShadow name shadow =>
    cases hm
    exact h.of_same (orSame_vifs fun _ hm =>
      modifyStation_vifs (g := (·.setShadow shadow)) (fun _ => rfl) hm)
  | setPolicy name policy =>
    cases hm
    exact h.of_same (orSame_vifs fun _ hm =>
      modifyStation_vifs (g := (·.setPolicy policy)) (fun _ => rfl) hm)
  | setRateLimit name rate now =>
    obtain ⟨r, hr, rfl⟩ := ok_of_map hm
    exact h.of_same (setRateLimit_vifs hr)
  | setQueueDepth name depth =>
    cases hm
    exact h.of_same (orSame_vifs fun _ hm => setQueueDepth_vifs hm)
  | modifyFlags name change =>
    cases hm
    refine h.of_same (orSame_vifs fun m hm => ?_)
    obtain ⟨id, -, hm⟩ := ok_of_bind hm
    cases hm
    exact modifyInterface_vifs n id (fun _ => rfl) fun _ => rfl
  | addAddress name address =>
    cases hm
    refine h.of_same (orSame_vifs fun m hm => ?_)
    obtain ⟨id, -, hm⟩ := ok_of_bind hm
    cases hm
    have hkept : ∀ i : Interface, (i.addAddress address).id = i.id ∧
        (i.addAddress address).binding = i.binding := by
      intro i
      unfold Interface.addAddress
      split <;> exact ⟨rfl, rfl⟩
    exact modifyInterface_vifs n id (fun i => (hkept i).1) fun i => by rw [(hkept i).2]
  | addGroup name mode relay =>
    cases hm
    exact h.of_same (.of_topology (Topology.vif?_of_interfaces (Topology.addGroup_interfaces ..)))
  | setGroupPolicy name policy tunnel resequence =>
    cases hm
    refine h.of_same (orSame_vifs fun m hm => ?_)
    obtain ⟨gid, -, hm⟩ := ok_of_bind hm
    cases hm
    exact .of_topology fun _ => rfl
  | addMember group member role =>
    cases hm
    exact h.of_same (addMember_vifs ha group member role)
  | associate group =>
    cases hm
    unfold associate
    split
    · exact h
    · exact h.of_same (associate_vifs hi _)
  | removeMember group member =>
    cases hm
    cases hr : n.removeMember group member with
    | error e => exact h
    | ok m => exact removeMember_tunnelled h hr
  | removeGroup group =>
    cases hm
    cases hr : n.removeGroup group with
    | error e => exact h
    | ok r => exact removeGroup_tunnelled h hr
  | forward destinations f now =>
    obtain ⟨⟨r, m⟩, hr, rfl⟩ := ok_of_map hm
    exact h.of_same (forward_vifs hr)
  | ingress id f now =>
    obtain ⟨⟨r, m⟩, hr, rfl⟩ := ok_of_map hm
    exact h.of_same (ingress_vifs hr)
  | poll now =>
    obtain ⟨⟨r, m⟩, hr, rfl⟩ := ok_of_map hm
    exact h.of_same (poll_vifs hr)
  | shutdown =>
    cases hm
    exact h.of_same (shutdown_vifs n)
  | channels change =>
    cases hm
    have hsame := mapStations_vifs n (g := (·.mapDevices (Device.meanwhile change))) fun _ => rfl
    exact h.of_same ⟨fun _ => rfl, hsame.adapters⟩

theorem reachable_tunnelled (h : Reachable n) : Tunnelled n := by
  induction h with
  | new settings => exact fun _ => rfl
  | next e hr hm ih => exact next_tunnelled (reachable_aligned hr) ih e hm

end Node

end MulticastRelay
