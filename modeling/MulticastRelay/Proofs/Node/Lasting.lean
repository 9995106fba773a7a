import MulticastRelay.Proofs.Adapter.Lasting
import MulticastRelay.Proofs.Node.Buffers
import MulticastRelay.Proofs.Node.Dispatch

/-! # What lasts in a node

A property that nothing done to an attached element ends is one of every element of a node, and no
cursor leaves the elements of its adapter, whatever was asked of the node.
-/
namespace MulticastRelay

variable {P : Element → Prop} {a b : Station} {f : Frame} {now : Instant} {id : InterfaceId}

namespace Stations

variable {s t : Stations}

/-- What every adapter upholds. -/
def Uphold (P : Element → Prop) (s : Stations) : Prop := ∀ a ∈ s.adapters, a.Upholds P

theorem Uphold.get? (h : s.Uphold P) (ha : s.get? id = some a) : a.Upholds P :=
  h a (Keyed.get?_mem ha).1

theorem Uphold.replace (h : s.Uphold P) (hb : b.Upholds P) : (s.replace b).Uphold P := by
  intro x hx
  obtain ⟨y, hy, rfl⟩ := Keyed.mem_modify.1 hx
  split
  · exact hb
  · exact h y hy

theorem Uphold.insert (h : s.Uphold P) (hb : b.Upholds P) : (s.insert b).Uphold P := by
  intro x hx
  rcases Ascending.eq_or_mem_of_mem_insert hx with rfl | hx
  · exact hb
  · exact h x hx

theorem Uphold.erase (h : s.Uphold P) (id : InterfaceId) : (s.erase id).Uphold P :=
  fun x hx => h x (List.mem_of_mem_filter hx)

theorem Uphold.map (h : s.Uphold P) {g : Station → Station}
    (hg : ∀ a : Station, a.Upholds P → (g a).Upholds P) :
    Uphold P { s with adapters := s.adapters.map g } := by
  intro x hx
  obtain ⟨y, hy, rfl⟩ := List.mem_map.1 hx
  exact hg y (h y hy)

variable (hP : Element.Lasting P)

include hP

theorem Uphold.deliver (h : s.Uphold P) {priority : Bool} (destinations : List InterfaceId)
    {r r' : DispatchReport} (ht : Stations.deliver f priority now destinations r s = .ok (r', t)) :
    t.Uphold P := by
  induction destinations generalizing r s with
  | nil =>
    cases ht
    exact h
  | cons dest rest ih =>
    unfold Stations.deliver at ht
    split at ht
    · exact ih h ht
    · rename_i ha
      obtain ⟨⟨result, u⟩, hu, ht⟩ := ok_of_bind ht
      obtain ⟨⟨_, b, p⟩, hb, hu⟩ := ok_of_bind hu
      cases hu
      have hs : Uphold P { s.replace b with pool := p } := h.replace ((h.get? ha).transmit hP hb)
      exact ih hs ht

theorem Uphold.dispatch (h : s.Uphold P) {destinations : List InterfaceId} {r : DispatchReport}
    (ht : s.dispatch destinations f now = .ok (r, t)) : t.Uphold P :=
  h.deliver hP destinations ht

end Stations

namespace Node

variable {n m : Node} {name : String}

/-- What every adapter of the node upholds. -/
def Upholds (P : Element → Prop) (n : Node) : Prop := n.stations.Uphold P

theorem Upholds.of_stations (h : n.Upholds P) (hm : m.stations = n.stations) : m.Upholds P := by
  unfold Upholds
  rw [hm]
  exact h

theorem Upholds.station (h : n.Upholds P) (ha : n.station? id = some a) : a.Upholds P :=
  Stations.Uphold.get? h ha

theorem Upholds.setStation (h : n.Upholds P) (hb : b.Upholds P) : (n.setStation b).Upholds P :=
  Stations.Uphold.replace h hb

theorem Upholds.orSame (h : n.Upholds P) {r : Except NodeError Node}
    (hr : ∀ m, r = .ok m → m.Upholds P) : (n.orSame r).Upholds P := by
  cases r with
  | error e => exact h
  | ok m => exact hr m rfl

/-! ## Interfaces -/

theorem Upholds.ensureStation (h : n.Upholds P) (id : InterfaceId) (name : String) :
    (n.ensureStation id name).Upholds P := by
  unfold Node.ensureStation
  split
  · exact h
  · exact Stations.Uphold.insert h
      ((Adapter.new_upholds P id name).of_composite (Adapter.setQueueDepth_composite ..))

theorem Upholds.addInterface (h : n.Upholds P) (name : String) :
    (n.addInterface name).2.Upholds P := by
  refine Upholds.ensureStation (n := { (n.indexFor name).2 with topology := _ }) ?_ _ name
  exact h.of_stations (indexFor_stations n name)

theorem Upholds.modifyStation {g : Station → Station} (h : n.Upholds P)
    (hg : ∀ a : Station, a.Upholds P → (g a).Upholds P) (hm : n.modifyStation name g = .ok m) :
    m.Upholds P := by
  obtain ⟨a, ha, hm⟩ := ok_of_bind hm
  cases hm
  obtain ⟨id, hs⟩ := stationNamed_station ha
  exact h.setStation (hg a (h.station hs))

theorem Upholds.setQueueDepth {depth : QueueDepth} (h : n.Upholds P)
    (hm : n.setQueueDepth name depth = .ok m) : m.Upholds P := by
  obtain ⟨a, ha, hm⟩ := ok_of_bind hm
  cases hm
  obtain ⟨id, hs⟩ := stationNamed_station ha
  exact Stations.Uphold.replace h ((h.station hs).of_composite
    (Adapter.setQueueDepth_composite a n.stations.pool depth))

theorem Upholds.setRateLimit {rate : Float} {r : Except NodeError Node} (h : n.Upholds P)
    (hr : n.setRateLimit name rate now = .ok r) : (n.orSame r).Upholds P := by
  unfold Node.setRateLimit at hr
  split at hr
  · cases hr
    exact h
  · rename_i a ha
    obtain ⟨b, hb, hr⟩ := ok_of_bind hr
    cases hr
    obtain ⟨id, hs⟩ := stationNamed_station ha
    obtain ⟨t, rfl⟩ := Adapter.setRateLimit_cases hb
    exact h.setStation ((h.station hs).of_composite rfl)

theorem Upholds.bindVif (h : n.Upholds P) (name vif : String) (address : LinkAddress) :
    (n.bindVif name vif address).2.Upholds P := by
  unfold Node.bindVif
  split
  · exact h
  · split
    · exact h
    · dsimp only
      split
      · exact h
      · rename_i ha
        obtain ⟨id, hs⟩ := stationNamed_station ha
        exact Upholds.setStation (n := n) h ((h.station hs).of_composite rfl)

variable (hP : Element.Lasting P)

include hP

/-! ## Devices -/

theorem attachAll_upholds {host : Host} (devices : List String) (h : a.Upholds P) :
    (attachAll a host devices).2.1.Upholds P := by
  induction devices generalizing a host with
  | nil => exact h
  | cons device rest ih =>
    unfold attachAll
    split
    · exact h
    · rename_i d _ ho
      unfold Host.open? at ho
      split at ho
      · cases ho
      · cases ho
        exact ih (h.attach hP _ _)

theorem attachMissing_upholds {host : Host} (devices : List String) (h : a.Upholds P) :
    (attachMissing a host devices).2.1.Upholds P := by
  induction devices generalizing a host with
  | nil => exact h
  | cons device rest ih =>
    unfold attachMissing
    split
    · exact ih h
    · split
      · exact h
      · rename_i d _ ho
        unfold Host.open? at ho
        split at ho
        · cases ho
        · cases ho
          exact ih (h.attach hP _ _)

omit hP in
theorem detachAll_upholds {host : Host} (names : List String) (h : a.Upholds P) :
    (detachAll a host names).2.1.Upholds P := by
  induction names generalizing a host with
  | nil => exact h
  | cons name rest ih =>
    unfold detachAll
    split
    · exact h
    · rename_i hd
      exact ih (h.removeElement hd)

theorem Upholds.openDevices (h : n.Upholds P) (id : InterfaceId) :
    (n.openDevices id).2.Upholds P := by
  unfold Node.openDevices
  split
  · exact h
  · rename_i i _
    have hm := h.ensureStation id i.name
    dsimp only
    split
    · exact hm
    · rename_i ha
      split
      · exact hm
      · exact hm.setStation (attachAll_upholds hP _ (hm.station ha))

theorem Upholds.setDevices (h : n.Upholds P) (name : String) (devices : List String) :
    (n.setDevices name devices).2.Upholds P := by
  unfold Node.setDevices
  split
  · exact h
  · have hm := h.addInterface name
    dsimp only
    split
    · exact hm
    · rename_i a ha
      have hd : (detachAll a (n.addInterface name).2.host
          ((a.elements.map Element.name).filter fun e => !devices.contains e)).2.1.Upholds P :=
        detachAll_upholds _ (hm.station ha)
      split
      · exact hm.setStation hd
      · exact hm.setStation (attachMissing_upholds hP devices hd)

theorem Upholds.setDeviceTx {device : String} {on : Bool} (h : n.Upholds P)
    (hm : n.setDeviceTx name device on = .ok m) : m.Upholds P := by
  obtain ⟨a, ha, hm⟩ := ok_of_bind hm
  obtain ⟨id, hs⟩ := stationNamed_station ha
  split at hm
  · rename_i hb
    cases hm
    exact h.setStation ((h.station hs).setElementTx hP hb)
  · cases hm

theorem Upholds.syncCapture (h : n.Upholds P) : n.syncCapture.Upholds P := by
  have aligned : ∀ active e, P e → P (if e.rxEnabled = active then e else e.setRx active) := by
    intro active e he
    split
    · exact he
    · exact hP.setRx e active he
  exact Stations.Uphold.map h fun a ha => ha.mapElements (aligned _)

omit hP in
theorem Upholds.dropStation (h : n.Upholds P) (id : InterfaceId) : (n.dropStation id).Upholds P := by
  unfold Node.dropStation
  split
  · exact h
  · exact Stations.Uphold.erase h id

/-! ## Groups and links -/

theorem Upholds.linkUp (h : n.Upholds P) (link : Link) : (n.linkUp link).2.Upholds P := by
  unfold Node.linkUp
  refine Upholds.syncCapture hP ?_
  apply Upholds.openDevices hP
  exact h.of_stations rfl

theorem Upholds.linkDown (h : n.Upholds P) (name : String) : (n.linkDown name).2.Upholds P := by
  unfold Node.linkDown
  dsimp only
  split
  · exact h
  · refine Upholds.syncCapture hP ?_
    apply Upholds.dropStation
    exact h.of_stations rfl

theorem Upholds.addWildcardMember (h : n.Upholds P) (group : GroupId) (stem : String)
    (role : Role) : (n.addWildcardMember group stem role).2.Upholds P := by
  unfold Node.addWildcardMember
  split
  · exact h
  · refine Upholds.syncCapture hP ?_
    exact List.foldlRecOn (motive := Upholds P) _ _ h fun m hm l _ => hm.openDevices hP _

theorem Upholds.addConcreteMember (h : n.Upholds P) (group : GroupId) (member : String)
    (role : Role) : (n.addConcreteMember group member role).2.Upholds P := by
  have hm := h.addInterface member
  unfold Node.addConcreteMember
  dsimp only
  split
  · exact hm
  · rename_i topology _
    have ho := Upholds.openDevices (n := { (n.addInterface member).2 with topology }) hP hm
      (n.addInterface member).1
    split
    · rename_i he
      rw [he] at ho
      exact ho
    · rename_i he
      rw [he] at ho
      exact Upholds.syncCapture hP ho

theorem Upholds.addMember (h : n.Upholds P) (group member : String) (role : Role) :
    (n.addMember group member role).2.Upholds P := by
  unfold Node.addMember
  split
  · exact h
  · split
    · exact h.addWildcardMember hP _ _ _
    · exact h.addConcreteMember hP _ _ _

theorem Upholds.associate (h : n.Upholds P) (group : String) :
    (n.associate group).2.Upholds P := by
  unfold Node.associate
  split
  · exact h
  · exact Upholds.syncCapture hP h

omit hP in
theorem Upholds.removeMember (h : n.Upholds P) {group member : String}
    (hm : n.removeMember group member = .ok m) : m.Upholds P := by
  obtain ⟨gid, -, hm⟩ := ok_of_bind hm
  obtain ⟨id, -, hm⟩ := ok_of_bind hm
  obtain ⟨⟨destroyed, topology⟩, -, hm⟩ := ok_of_bind hm
  cases hm
  split
  · exact Upholds.dropStation (n := { n with topology }) h id
  · exact h

theorem Upholds.removeGroup (h : n.Upholds P) {group : String} {destroyed : List InterfaceId}
    (hm : n.removeGroup group = .ok (destroyed, m)) : m.Upholds P := by
  obtain ⟨gid, -, hm⟩ := ok_of_bind hm
  obtain ⟨⟨ids, topology⟩, -, hm⟩ := ok_of_bind hm
  cases hm
  refine Upholds.syncCapture hP ?_
  exact List.foldlRecOn (motive := Upholds P) _ _ h fun m hm id _ => hm.dropStation id

/-! ## Traffic and turns -/

theorem Upholds.forward {destinations : List InterfaceId} {delivered : Bool} (h : n.Upholds P)
    (hm : n.forward destinations f now = .ok (delivered, m)) : m.Upholds P := by
  obtain ⟨⟨report, stations⟩, hs, hm⟩ := ok_of_bind hm
  cases hm
  exact Stations.Uphold.dispatch hP h hs

theorem relay_uphold {s t : Stations} {tunnelled plain : List InterfaceId} {g : Frame}
    {r : DispatchReport} {expired : Bool} (h : s.Uphold P)
    (ht : relay s tunnelled plain f now = .ok (g, r, expired, t)) : t.Uphold P := by
  rw [relay_eq] at ht
  obtain ⟨⟨report, u⟩, hu, ht⟩ := ok_of_bind ht
  have hb := h.dispatch hP hu
  dsimp only at ht
  split at ht
  · cases ht
    exact hb
  · split at ht
    · cases ht
      exact hb
    · obtain ⟨⟨more, v⟩, hv, ht⟩ := ok_of_bind ht
      cases ht
      exact hb.dispatch hP hv

theorem Upholds.ingress {r : Bool × Frame} (h : n.Upholds P)
    (hm : n.ingress id f now = .ok (r, m)) : m.Upholds P := by
  unfold Node.ingress at hm
  dsimp only at hm
  split at hm
  · cases hm
    exact h
  · cases hm
    exact h
  · cases hm
    exact h
  · cases hm
    exact h
  · cases hm
    exact h
  · obtain ⟨⟨g, report, expired, stations⟩, hs, hm⟩ := ok_of_bind hm
    have ht : stations.Uphold P := relay_uphold hP h hs
    dsimp only at hm
    split at hm
    · cases hm
      exact ht
    · split at hm <;> cases hm <;> exact ht

theorem Upholds.serve {captured : List Buffer} (h : n.Upholds P)
    (hm : n.serve id now = .ok (captured, m)) : m.Upholds P := by
  unfold Node.serve at hm
  split at hm
  · cases hm
    exact h
  · rename_i a ha
    obtain ⟨⟨fired, b, p⟩, hb, hm⟩ := ok_of_bind hm
    have timed := (h.station ha).onTimer hP hb
    obtain ⟨hkept, hlen⟩ := sweep_lasting hP timed.elements p
    have swept : Adapter.Upholds P { b with composite.elements := (sweep b.elements p).elements } :=
      Composite.Upholds.replace timed hkept hlen
    dsimp only at hm
    split at hm
    all_goals
      obtain ⟨⟨c, q⟩, hc, hm⟩ := ok_of_bind hm
      have told : c.Upholds P := by
        first
        | exact swept.onOutputReady hP hc
        | (cases hc; exact swept)
      dsimp only at hm
      split at hm
      all_goals
        obtain ⟨⟨d, r⟩, hd, hm⟩ := ok_of_bind hm
        have fed : d.Upholds P := by
          first
          | exact told.onSourceReady hP hd
          | (cases hd; exact told)
        cases hm
        exact Stations.Uphold.replace h fed

theorem Upholds.serveAll {ids : List InterfaceId} {captured : List (InterfaceId × Buffer)}
    (h : n.Upholds P) (hm : n.serveAll now ids = .ok (captured, m)) : m.Upholds P := by
  induction ids generalizing n captured with
  | nil =>
    cases hm
    exact h
  | cons id ids ih =>
    obtain ⟨⟨first, u⟩, hu, hm⟩ := ok_of_bind hm
    obtain ⟨⟨more, v⟩, hv, hm⟩ := ok_of_bind hm
    cases hm
    exact ih (h.serve hP hu) hv

theorem Upholds.ingressAll {captured : List (InterfaceId × Buffer)} (h : n.Upholds P)
    (hm : n.ingressAll now captured = .ok m) : m.Upholds P := by
  induction captured generalizing n with
  | nil =>
    cases hm
    exact h
  | cons x rest ih =>
    obtain ⟨⟨r, u⟩, hu, hm⟩ := ok_of_bind hm
    have hu := h.ingress hP hu
    have hput : (u.putBuffer x.2).Upholds P := hu
    exact ih hput hm

theorem Upholds.poll {captured : Nat} (h : n.Upholds P) (hm : n.poll now = .ok (captured, m)) :
    m.Upholds P := by
  obtain ⟨⟨frames, u⟩, hu, hm⟩ := ok_of_bind hm
  obtain ⟨v, hv, hm⟩ := ok_of_bind hm
  cases hm
  exact (h.serveAll hP hu).ingressAll hP hv

theorem closeAll_uphold {as : List Station} (h : ∀ a ∈ as, a.Upholds P) (p : Pool) :
    ∀ a ∈ (closeAll as p).1, a.Upholds P := by
  induction as generalizing p with
  | nil => exact h
  | cons a as ih =>
    obtain ⟨ha, has⟩ := List.forall_mem_cons.1 h
    exact List.forall_mem_cons.2 ⟨ha.close hP p, ih has _⟩

/-! ## Runs -/

theorem Upholds.next (h : n.Upholds P) (e : Event) (hm : n.next e = .ok m) : m.Upholds P := by
  cases e with
  | setOracle | setLinks | addGroup | refusals =>
    cases hm
    exact h
  | linkUp link =>
    cases hm
    exact h.linkUp hP link
  | linkDown name =>
    cases hm
    exact h.linkDown hP name
  | addInterface name =>
    cases hm
    exact h.addInterface name
  | setDevices name devices =>
    cases hm
    exact h.setDevices hP name devices
  | setDeviceTx name device on =>
    cases hm
    exact h.orSame fun _ hm => h.setDeviceTx hP hm
  | bindVif name vif address =>
    cases hm
    exact h.bindVif name vif address
  | setShadow name shadow =>
    cases hm
    exact h.orSame fun _ hm =>
      h.modifyStation (g := (·.setShadow shadow)) (fun _ ha => ha.of_composite rfl) hm
  | setPolicy name policy =>
    cases hm
    exact h.orSame fun _ hm =>
      h.modifyStation (g := (·.setPolicy policy)) (fun _ ha => ⟨ha.elements, ha.cursor⟩) hm
  | setRateLimit name rate now =>
    obtain ⟨r, hr, rfl⟩ := ok_of_map hm
    exact h.setRateLimit hr
  | setQueueDepth name depth =>
    cases hm
    exact h.orSame fun _ hm => h.setQueueDepth hm
  | modifyFlags | addAddress | setGroupPolicy =>
    cases hm
    refine h.orSame fun _ hm => ?_
    obtain ⟨id, -, hm⟩ := ok_of_bind hm
    cases hm
    exact h
  | addMember group member role =>
    cases hm
    exact h.addMember hP group member role
  | associate group =>
    cases hm
    exact h.associate hP group
  | removeMember group member =>
    cases hm
    exact h.orSame fun _ hm => h.removeMember hm
  | removeGroup group =>
    cases hm
    refine h.orSame fun _ hm => ?_
    obtain ⟨⟨destroyed, m⟩, hr, rfl⟩ := ok_of_map hm
    exact h.removeGroup hP hr
  | forward destinations f now =>
    obtain ⟨⟨r, m⟩, hr, rfl⟩ := ok_of_map hm
    exact h.forward hP hr
  | ingress id f now =>
    obtain ⟨⟨r, m⟩, hr, rfl⟩ := ok_of_map hm
    exact h.ingress hP hr
  | poll now =>
    obtain ⟨⟨r, m⟩, hr, rfl⟩ := ok_of_map hm
    exact h.poll hP hr
  | shutdown =>
    cases hm
    exact closeAll_uphold hP h _
  | channels change =>
    cases hm
    refine Stations.Uphold.map h fun a ha => ?_
    exact Composite.Upholds.map ha fun e he => hP.meanwhile e change he

theorem reachable_upholds (h : Reachable n) : n.Upholds P := by
  induction h with
  | new settings => exact List.forall_mem_nil _
  | next e _ hm ih => exact ih.next hP e hm

end Node
end MulticastRelay
