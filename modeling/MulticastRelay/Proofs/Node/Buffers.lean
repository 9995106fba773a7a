import MulticastRelay.Proofs.Adapter.Buffers
import MulticastRelay.Proofs.Keyed
import MulticastRelay.Proofs.Node.Runs

/-! # Conservation of buffers

Every buffer of the pool of a node is free or in the queue of exactly one adapter. During a turn
some are in hand: captured, and not yet run through ingress.
-/
namespace MulticastRelay

/-! ## Adapters and their pool -/

namespace Stations

def queued (s : Stations) : Nat := (s.adapters.map Adapter.queueLength).sum

/-- Each buffer is free, in one queue, or one of `i` in hand. -/
structure Balanced (s : Stations) (i : Nat) : Prop where
  owners : (s.adapters.map Adapter.owner).Nodup
  buffers : s.pool.available + s.queued + i = s.pool.capacity

variable {s : Stations} {a b : Station} {p : Pool} {i j k : Nat} {id : InterfaceId}

theorem get?_owner (h : s.get? id = some a) : a.owner = id := (Keyed.get?_mem h).2

theorem get?_replace {x : InterfaceId} (ha : s.get? b.owner = some a) :
    (s.replace b).get? x = if x = b.owner then some b else s.get? x := by
  unfold get? at ha ⊢
  unfold replace
  dsimp only
  rw [Keyed.get?_modify (fun _ _ => rfl), ha]
  rfl

/-- What one adapter and the pool do without losing a buffer, all do. -/
theorem Balanced.replace (h : s.Balanced (k + i)) (ha : s.get? a.owner = some a)
    (hc : Adapter.Conserves a s.pool i b p j) :
    Balanced { s.replace b with pool := p } (k + j) := by
  have hb : b.owner = a.owner := hc.owner
  refine ⟨?_, ?_⟩
  · have hm : (Keyed.modify Adapter.owner b.owner (fun _ => b) s.adapters).map Adapter.owner =
        s.adapters.map Adapter.owner := Keyed.map_key_modify fun _ _ => rfl
    exact (hm ▸ h.owners :)
  · have hs := Keyed.sum_modify (b := b) h.owners ha Adapter.queueLength
    have hn := h.buffers
    have he := hc.buffers
    have hcap : p.capacity = s.pool.capacity := hc.capacity
    rw [← hb] at hs
    simp only [queued, Stations.replace] at hn ⊢
    omega

theorem Balanced.erase (h : s.Balanced (k + i)) (ha : s.get? id = some a)
    (hc : Adapter.Conserves a s.pool i b p j) (hb : b.queueLength = 0) :
    Balanced ({ s with pool := p }.erase id) (k + j) := by
  refine ⟨?_, ?_⟩
  · exact h.owners.sublist (List.Sublist.map _ List.filter_sublist)
  · have hs := Keyed.sum_erase h.owners ha Adapter.queueLength
    have hn := h.buffers
    have he := hc.buffers
    have hcap : p.capacity = s.pool.capacity := hc.capacity
    simp only [queued, Stations.erase] at hn ⊢
    omega

theorem before_trichotomy (a b : Station) :
    Adapter.before a b = true ∨ Adapter.before b a = true ∨ a.owner = b.owner := by
  simp only [Adapter.before, InterfaceId.before, decide_eq_true_eq]
  rcases Nat.lt_trichotomy a.owner.index b.owner.index with h | h | h
  · exact .inl h
  · exact .inr (.inr (congrArg InterfaceId.mk h))
  · exact .inr (.inl h)

theorem insert_perm {xs : List Station} (h : a.owner ∉ xs.map Adapter.owner) :
    (Ascending.insert Adapter.before a xs).Perm (a :: xs) := by
  apply Ascending.insert_perm
  intro x hx
  rcases before_trichotomy a x with hb | hb | hb
  · exact .inl hb
  · exact .inr hb
  · exact absurd (hb ▸ List.mem_map_of_mem hx) h

theorem not_mem_of_get? (h : s.get? id = none) : id ∉ s.adapters.map Adapter.owner := by
  intro hm
  obtain ⟨a, ha, hk⟩ := List.mem_map.1 hm
  have := List.find?_eq_none.1 h a ha
  simp [hk] at this

/-- A new adapter is found under its owner, and the others as before. -/
theorem get?_insert (hfree : s.get? b.owner = none)
    (x : InterfaceId) : (s.insert b).get? x = if b.owner = x then some b else s.get? x := by
  have hother : ∀ a ∈ s.adapters, a.owner ≠ b.owner := fun a ha he => by
    have hin := List.mem_map_of_mem (f := Adapter.owner) ha
    rw [he] at hin
    exact not_mem_of_get? hfree hin
  exact Keyed.get?_insert hother (fun a ha => (before_trichotomy b a).imp_right fun hor =>
    hor.resolve_right fun he => hother a ha he.symm) x

/-- A new adapter takes the buffers of its queue, if any, from the pool. -/
theorem Balanced.insert (h : s.Balanced i) (ha : s.get? b.owner = none)
    (hc : Adapter.Conserves a s.pool 0 b p 0) (hq : a.queueLength = 0) :
    ({ s with pool := p }.insert b).Balanced i := by
  have hp := insert_perm (not_mem_of_get? ha)
  refine ⟨?_, ?_⟩
  · have hm := (hp.map Adapter.owner).nodup_iff.2
    exact hm (List.nodup_cons.2 ⟨not_mem_of_get? ha, h.owners⟩)
  · have hs := (hp.map Adapter.queueLength).sum_nat
    have hn := h.buffers
    have he := hc.buffers
    have hcap : p.capacity = s.pool.capacity := hc.capacity
    simp only [List.map_cons, List.sum_cons] at hs
    simp only [queued, Stations.insert] at hn ⊢
    omega

/-- Changing adapters one by one is no matter if each keeps what it has in custody. -/
theorem Balanced.map {g : Station → Station} (h : s.Balanced i)
    (hg : ∀ a, (g a).custody = a.custody) :
    Balanced { s with adapters := s.adapters.map g } i := by
  have ho : ∀ a, (g a).owner = a.owner := fun a => (Prod.mk.inj (hg a)).1
  have hq : ∀ a, (g a).queueLength = a.queueLength := fun a =>
    congrArg FrameQueue.length (Prod.mk.inj (hg a)).2
  refine ⟨?_, ?_⟩
  · simpa [Function.comp_def, ho] using h.owners
  · simpa [queued, Function.comp_def, hq] using h.buffers

theorem Balanced.same (h : s.Balanced i) (ha : s.get? a.owner = some a)
    (hb : b.custody = a.custody) : (s.replace b).Balanced i :=
  h.replace (i := 0) (k := i) ha (.of_custody hb)

/-! ## Delivery -/

variable {f : Frame} {priority : Bool} {now : Instant}

theorem transmit_balanced {t : Stations} {r : Except AdapterError Delivery} (h : s.Balanced i)
    (ha : s.get? id = some a) (ht : s.transmit a f priority now = .ok (r, t)) : t.Balanced i := by
  obtain ⟨⟨r, b, p⟩, hb, ht⟩ := ok_of_bind ht
  cases ht
  exact h.replace (i := 0) (k := i) (get?_owner ha ▸ ha) (Adapter.transmit_conserves hb)

theorem deliver_balanced {t : Stations} (destinations : List InterfaceId) (r : DispatchReport)
    {r' : DispatchReport} (h : s.Balanced i)
    (ht : deliver f priority now destinations r s = .ok (r', t)) : t.Balanced i := by
  induction destinations generalizing r s with
  | nil =>
    cases ht
    exact h
  | cons dest rest ih =>
    unfold deliver at ht
    cases ha : s.get? dest with
    | none =>
      rw [ha] at ht
      exact ih _ h ht
    | some a =>
      rw [ha] at ht
      obtain ⟨⟨result, u⟩, hu, ht⟩ := ok_of_bind ht
      exact ih _ (transmit_balanced h ha hu) ht

theorem dispatch_balanced {t : Stations} {destinations : List InterfaceId} {r : DispatchReport}
    (h : s.Balanced i) (ht : s.dispatch destinations f now = .ok (r, t)) : t.Balanced i :=
  deliver_balanced destinations {} h ht

end Stations

/-! ## Nodes -/

namespace Node

/-- The buffers of the node's pool are accounted for, with `i` in hand. -/
def Balanced (n : Node) (i : Nat) : Prop := n.stations.Balanced i

variable {n m : Node} {a b : Station} {i : Nat} {id : InterfaceId} {name : String}

theorem Balanced.of_stations (h : n.Balanced i) (hm : m.stations = n.stations) : m.Balanced i := by
  unfold Balanced
  rw [hm]
  exact h

theorem new_balanced (settings : NodeSettings) : (new settings).Balanced 0 :=
  ⟨List.nodup_nil, by simp [new, Pool.new, Pool.available, Stations.queued]⟩

theorem setStation_balanced (h : n.Balanced i) (ha : n.station? id = some a)
    (hb : b.custody = a.custody) : (n.setStation b).Balanced i :=
  Stations.Balanced.same h (Stations.get?_owner ha ▸ ha) hb

/-! ### Interfaces and devices -/

theorem ensureStation_balanced (h : n.Balanced i) (id : InterfaceId) (name : String) :
    (n.ensureStation id name).Balanced i := by
  unfold ensureStation
  split
  · exact h
  · rename_i hs
    have hn : n.stations.get? id = none := Option.not_isSome_iff_eq_none.1 hs
    have hc := Adapter.setQueueDepth_conserves (i := 0) (Adapter.new id name : Station)
      n.stations.pool n.settings.defaultQueue
    have ho : n.stations.get? ((Adapter.new id name : Station).setQueueDepth n.stations.pool
        n.settings.defaultQueue).1.owner = none := by
      rw [hc.owner]
      exact hn
    exact Stations.Balanced.insert h ho hc rfl

theorem indexFor_stations (n : Node) (name : String) :
    (n.indexFor name).2.stations = n.stations := by
  unfold indexFor
  split
  · rfl
  · split <;> rfl

theorem addInterface_balanced (h : n.Balanced i) (name : String) :
    (n.addInterface name).2.Balanced i := by
  have hn : Node.Balanced { (n.indexFor name).2 with
      topology := (n.indexFor name).2.topology.addInterface (n.indexFor name).1 name } i := by
    unfold Balanced
    rw [indexFor_stations]
    exact h
  exact ensureStation_balanced hn _ name

theorem attachAll_custody {host final : Host} {r : Except NodeError Unit} (devices : List String)
    (h : attachAll a host devices = (r, b, final)) : b.custody = a.custody := by
  induction devices generalizing a host with
  | nil =>
    cases h
    rfl
  | cons device rest ih =>
    unfold attachAll at h
    split at h
    · cases h
      rfl
    · exact (ih h :)

theorem detachAll_custody {host final : Host} {r : Except NodeError Unit} (names : List String)
    (h : detachAll a host names = (r, b, final)) : b.custody = a.custody := by
  induction names generalizing a host with
  | nil =>
    cases h
    rfl
  | cons name rest ih =>
    unfold detachAll at h
    split at h
    · cases h
      rfl
    · rename_i e c hc
      exact (ih h).trans (Adapter.removeElement_custody hc)

theorem attachMissing_custody {host final : Host} {r : Except NodeError Unit}
    (devices : List String)
    (h : attachMissing a host devices = (r, b, final)) : b.custody = a.custody := by
  induction devices generalizing a host with
  | nil =>
    cases h
    rfl
  | cons device rest ih =>
    unfold attachMissing at h
    split at h
    · exact ih h
    · split at h
      · cases h
        rfl
      · exact (ih h :)

theorem openDevices_balanced (h : n.Balanced i) (id : InterfaceId) :
    (n.openDevices id).2.Balanced i := by
  unfold openDevices
  split
  · exact h
  · rename_i interface _
    have hm := ensureStation_balanced h id interface.name
    dsimp only
    split
    · exact hm
    · rename_i a ha
      split
      · exact hm
      · exact setStation_balanced hm ha (attachAll_custody _ rfl)

theorem tryOpenDevices_balanced (h : n.Balanced i) (id : InterfaceId) :
    (n.tryOpenDevices id).Balanced i :=
  openDevices_balanced h id

theorem dropStation_balanced (h : n.Balanced i) (id : InterfaceId) :
    (n.dropStation id).Balanced i := by
  unfold dropStation
  split
  · exact h
  · rename_i a ha
    exact Stations.Balanced.erase (i := 0) (k := i) h ha (Adapter.close_conserves a _) rfl

theorem setDevices_balanced (h : n.Balanced i) (name : String) (devices : List String) :
    (n.setDevices name devices).2.Balanced i := by
  unfold setDevices
  split
  · exact h
  · have hm := addInterface_balanced h name
    dsimp only
    split
    · exact hm
    · rename_i a ha
      have hd : (detachAll a (n.addInterface name).2.host
          ((a.elements.map Element.name).filter fun e => !devices.contains e)).2.1.custody =
          a.custody := detachAll_custody _ rfl
      split
      · exact setStation_balanced hm ha hd
      · exact setStation_balanced hm ha ((attachMissing_custody devices rfl).trans hd)

theorem syncCapture_balanced (h : n.Balanced i) : n.syncCapture.Balanced i :=
  Stations.Balanced.map h fun _ => rfl

theorem orSame_balanced (h : n.Balanced i) {r : Except NodeError Node}
    (hr : ∀ m, r = .ok m → m.Balanced i) : (n.orSame r).Balanced i := by
  cases r with
  | error e => exact h
  | ok m => exact hr m rfl

theorem stationNamed_station (h : n.stationNamed? name = .ok a) :
    ∃ id, n.station? id = some a := by
  obtain ⟨id, -, h⟩ := ok_of_bind h
  split at h
  · rename_i c hc
    cases h
    exact ⟨id, hc⟩
  · cases h

theorem modifyStation_balanced (h : n.Balanced i) {g : Station → Station}
    (hg : ∀ a, (g a).custody = a.custody) (hm : n.modifyStation name g = .ok m) : m.Balanced i := by
  obtain ⟨a, ha, hm⟩ := ok_of_bind hm
  cases hm
  obtain ⟨id, hs⟩ := stationNamed_station ha
  exact setStation_balanced h hs (hg a)

theorem setDeviceTx_balanced (h : n.Balanced i) {device : String} {on : Bool}
    (hm : n.setDeviceTx name device on = .ok m) : m.Balanced i := by
  obtain ⟨a, ha, hm⟩ := ok_of_bind hm
  obtain ⟨id, hs⟩ := stationNamed_station ha
  split at hm
  · rename_i b hb
    cases hm
    exact setStation_balanced h hs (Adapter.modifyElement_custody hb)
  · cases hm

theorem bindVif_balanced (h : n.Balanced i) (name vif : String) (address : LinkAddress) :
    (n.bindVif name vif address).2.Balanced i := by
  unfold bindVif
  split
  · exact h
  · split
    · exact h
    · dsimp only
      split
      · exact h
      · rename_i a ha
        obtain ⟨id, hs⟩ := stationNamed_station ha
        exact setStation_balanced (n := n) h hs rfl

theorem setQueueDepth_balanced (h : n.Balanced i) {depth : QueueDepth}
    (hm : n.setQueueDepth name depth = .ok m) : m.Balanced i := by
  obtain ⟨a, ha, hm⟩ := ok_of_bind hm
  cases hm
  obtain ⟨id, hs⟩ := stationNamed_station ha
  exact Stations.Balanced.replace (i := 0) (k := i) h (Stations.get?_owner hs ▸ hs)
    (Adapter.setQueueDepth_conserves a n.stations.pool depth)

theorem setRateLimit_balanced (h : n.Balanced i) {rate : Float} {now : Instant}
    {r : Except NodeError Node} (hr : n.setRateLimit name rate now = .ok r) :
    (n.orSame r).Balanced i := by
  unfold setRateLimit at hr
  split at hr
  · cases hr
    exact h
  · rename_i a ha
    obtain ⟨b, hb, hr⟩ := ok_of_bind hr
    cases hr
    obtain ⟨id, hs⟩ := stationNamed_station ha
    exact setStation_balanced h hs (Adapter.setRateLimit_custody hb)

/-! ### Groups and links -/

theorem linkUp_balanced (h : n.Balanced i) (link : Link) : (n.linkUp link).2.Balanced i := by
  unfold linkUp
  apply syncCapture_balanced
  apply tryOpenDevices_balanced
  exact h.of_stations rfl

theorem linkDown_balanced (h : n.Balanced i) (name : String) : (n.linkDown name).2.Balanced i := by
  unfold linkDown
  dsimp only
  split
  · exact h
  · apply syncCapture_balanced
    apply dropStation_balanced
    exact h.of_stations rfl

theorem addWildcardMember_balanced (h : n.Balanced i) (group : GroupId) (stem : String)
    (role : Role) :
    (n.addWildcardMember group stem role).2.Balanced i := by
  have opened : ∀ (links : List Link) {m : Node}, m.Balanced i →
      (links.foldl (fun n l => n.tryOpenDevices ⟨l.index⟩) m).Balanced i := by
    intro links
    induction links with
    | nil => exact id
    | cons l links ih => exact fun hm => ih (tryOpenDevices_balanced hm _)
  unfold addWildcardMember
  split
  · exact h
  · apply syncCapture_balanced
    apply opened
    exact h.of_stations rfl

theorem addConcreteMember_balanced (h : n.Balanced i) (group : GroupId) (member : String)
    (role : Role) : (n.addConcreteMember group member role).2.Balanced i := by
  have hm := addInterface_balanced h member
  unfold addConcreteMember
  dsimp only
  split
  · exact hm
  · rename_i topology _
    have ho := openDevices_balanced (n := { (n.addInterface member).2 with topology })
      (hm.of_stations rfl) (n.addInterface member).1
    split
    · rename_i he
      rw [he] at ho
      exact ho
    · rename_i he
      rw [he] at ho
      exact syncCapture_balanced ho

theorem addMember_balanced (h : n.Balanced i) (group member : String) (role : Role) :
    (n.addMember group member role).2.Balanced i := by
  unfold addMember
  split
  · exact h
  · split
    · exact addWildcardMember_balanced h _ _ _
    · exact addConcreteMember_balanced h _ _ _

theorem associate_balanced (h : n.Balanced i) (group : String) :
    (n.associate group).2.Balanced i := by
  unfold associate
  split
  · exact h
  · apply syncCapture_balanced
    exact h.of_stations rfl

theorem removeMember_balanced (h : n.Balanced i) {group member : String}
    (hm : n.removeMember group member = .ok m) : m.Balanced i := by
  obtain ⟨gid, -, hm⟩ := ok_of_bind hm
  obtain ⟨id, -, hm⟩ := ok_of_bind hm
  obtain ⟨⟨destroyed, topology⟩, -, hm⟩ := ok_of_bind hm
  cases hm
  split
  · apply dropStation_balanced
    exact h.of_stations rfl
  · exact h

theorem removeGroup_balanced (h : n.Balanced i) {group : String} {destroyed : List InterfaceId}
    (hm : n.removeGroup group = .ok (destroyed, m)) : m.Balanced i := by
  have dropped : ∀ (ids : List InterfaceId) {m : Node}, m.Balanced i →
      (ids.foldl dropStation m).Balanced i := by
    intro ids
    induction ids with
    | nil => exact id
    | cons id ids ih => exact fun hm => ih (dropStation_balanced hm id)
  obtain ⟨gid, -, hm⟩ := ok_of_bind hm
  obtain ⟨⟨ids, topology⟩, -, hm⟩ := ok_of_bind hm
  cases hm
  apply syncCapture_balanced
  apply dropped
  exact h.of_stations rfl

/-! ### Traffic -/

variable {f : Frame} {now : Instant}

theorem forward_balanced {destinations : List InterfaceId} {delivered : Bool} (h : n.Balanced i)
    (hm : n.forward destinations f now = .ok (delivered, m)) : m.Balanced i := by
  obtain ⟨⟨report, stations⟩, hs, hm⟩ := ok_of_bind hm
  cases hm
  exact Stations.dispatch_balanced h hs

theorem relay_balanced {s t : Stations} {tunnelled plain : List InterfaceId} {g : Frame}
    {r : DispatchReport} {expired : Bool} (h : s.Balanced i)
    (ht : relay s tunnelled plain f now = .ok (g, r, expired, t)) : t.Balanced i := by
  unfold relay at ht
  dsimp only at ht
  split at ht
  all_goals
    obtain ⟨⟨report, u⟩, hu, ht⟩ := ok_of_bind ht
    have hb : u.Balanced i := by
      first
      | exact Stations.dispatch_balanced h hu
      | (cases hu; exact h)
    dsimp only at ht
    split at ht
    · cases ht
      exact hb
    · split at ht
      · cases ht
        exact hb
      · obtain ⟨⟨more, v⟩, hv, ht⟩ := ok_of_bind ht
        cases ht
        exact Stations.dispatch_balanced hb hv

theorem ingress_balanced {r : Bool × Frame} (h : n.Balanced i)
    (hm : n.ingress id f now = .ok (r, m)) :
    m.Balanced i := by
  unfold ingress at hm
  dsimp only at hm
  split at hm
  · cases hm
    exact h.of_stations rfl
  · cases hm
    exact h.of_stations rfl
  · cases hm
    exact h.of_stations rfl
  · cases hm
    exact h.of_stations rfl
  · cases hm
    exact h.of_stations rfl
  · obtain ⟨⟨g, report, expired, stations⟩, hs, hm⟩ := ok_of_bind hm
    have ht : stations.Balanced i := relay_balanced h hs
    dsimp only at hm
    split at hm
    · cases hm
      exact ht
    · split at hm
      · cases hm
        exact ht
      · cases hm
        exact ht

/-! ### Turns -/

theorem drain_available (budget : Nat) (e : Element) (p : Pool) :
    (drain budget e p).pool.available + (drain budget e p).captured.length = p.available ∧
      (drain budget e p).pool.capacity = p.capacity := by
  induction budget generalizing e p with
  | zero => exact ⟨rfl, rfl⟩
  | succ budget ih =>
    unfold drain
    split
    · exact ⟨rfl, rfl⟩
    · rename_i buffer rest ht
      obtain ⟨hn, hc⟩ := Pool.take_available ht
      split
      · rename_i b e' hb
        obtain ⟨hi, hic⟩ := ih e' (rest.put b)
        rw [Pool.put_available] at hi
        exact ⟨hi.trans hn, hic.trans hc⟩
      · rename_i b e' _ hb
        obtain ⟨hi, hic⟩ := ih e' rest
        refine ⟨?_, hic.trans hc⟩
        simp only [List.length_cons]
        omega
      · exact ⟨by rw [Pool.put_available]; exact hn, hc⟩

theorem sweep_available (es : List Element) (p : Pool) :
    (sweep es p).pool.available + (sweep es p).captured.length = p.available ∧
      (sweep es p).pool.capacity = p.capacity := by
  induction es generalizing p with
  | nil => exact ⟨rfl, rfl⟩
  | cons e es ih =>
    let d : Drained :=
      if e.poll.isReadable && e.rxEnabled then drain receiveBudget e p else ⟨[], e, p, false⟩
    have hd : d.pool.available + d.captured.length = p.available ∧
        d.pool.capacity = p.capacity := by
      by_cases hr : (e.poll.isReadable && e.rxEnabled) = true
      · simp only [d, if_pos hr]
        exact drain_available receiveBudget e p
      · simp only [d, if_neg hr]
        exact ⟨rfl, trivial⟩
    obtain ⟨hi, hic⟩ := ih d.pool
    refine ⟨?_, hic.trans hd.2⟩
    have hl : (sweep (e :: es) p).captured.length =
        d.captured.length + (sweep es d.pool).captured.length :=
      List.length_append
    have hp : (sweep (e :: es) p).pool = (sweep es d.pool).pool := rfl
    rw [hl, hp]
    omega

/-- What a turn captures is in hand. -/
theorem serve_balanced {captured : List Buffer} (h : n.Balanced i)
    (hm : n.serve id now = .ok (captured, m)) : m.Balanced (i + captured.length) := by
  unfold serve at hm
  split at hm
  · cases hm
    exact h
  · rename_i a ha
    obtain ⟨⟨fired, b, p⟩, hb, hm⟩ := ok_of_bind hm
    dsimp only at hm
    have timed : Adapter.Conserves a n.stations.pool 0 b p 0 := Adapter.onTimer_conserves hb
    obtain ⟨hn, hc⟩ := sweep_available b.elements p
    have swept : Adapter.Conserves b p 0
        { b with composite.elements := (sweep b.elements p).elements }
        (sweep b.elements p).pool (sweep b.elements p).captured.length :=
      ⟨rfl, hc, by simp only [Adapter.queueLength]; omega⟩
    split at hm
    all_goals
      obtain ⟨⟨c, q⟩, hc, hm⟩ := ok_of_bind hm
      have told : Adapter.Conserves { b with composite.elements := (sweep b.elements p).elements }
          (sweep b.elements p).pool (sweep b.elements p).captured.length c q
          (sweep b.elements p).captured.length := by
        first
        | exact Adapter.onOutputReady_conserves hc
        | (cases hc; exact .of_custody rfl)
      dsimp only at hm
      split at hm
      all_goals
        obtain ⟨⟨d, r⟩, hd, hm⟩ := ok_of_bind hm
        have fed : Adapter.Conserves c q (sweep b.elements p).captured.length d r
            (sweep b.elements p).captured.length := by
          first
          | exact Adapter.onSourceReady_conserves hd
          | (cases hd; exact .of_custody rfl)
        cases hm
        exact Stations.Balanced.replace (i := 0) h (Stations.get?_owner ha ▸ ha)
          (timed.trans (swept.trans (told.trans fed)))

theorem serveAll_balanced {ids : List InterfaceId} {captured : List (InterfaceId × Buffer)}
    (h : n.Balanced i) (hm : n.serveAll now ids = .ok (captured, m)) :
    m.Balanced (i + captured.length) := by
  induction ids generalizing n i captured with
  | nil =>
    cases hm
    exact h
  | cons id ids ih =>
    obtain ⟨⟨first, u⟩, hu, hm⟩ := ok_of_bind hm
    obtain ⟨⟨more, v⟩, hv, hm⟩ := ok_of_bind hm
    cases hm
    have := ih (serve_balanced h hu) hv
    rw [List.length_append, List.length_map, ← Nat.add_assoc]
    exact this

theorem putBuffer_balanced (h : n.Balanced (i + 1)) (b : Buffer) : (n.putBuffer b).Balanced i := by
  refine ⟨h.owners, ?_⟩
  have hn := h.buffers
  simp only [putBuffer, Stations.queued, Pool.put_available, Pool.put_capacity] at hn ⊢
  omega

theorem ingressAll_balanced {captured : List (InterfaceId × Buffer)}
    (h : n.Balanced (i + captured.length)) (hm : n.ingressAll now captured = .ok m) :
    m.Balanced i := by
  induction captured generalizing n with
  | nil =>
    cases hm
    exact h
  | cons x rest ih =>
    obtain ⟨⟨r, u⟩, hu, hm⟩ := ok_of_bind hm
    exact ih (putBuffer_balanced (ingress_balanced h hu) x.2) hm

theorem poll_balanced {captured : Nat} (h : n.Balanced 0) (hm : n.poll now = .ok (captured, m)) :
    m.Balanced 0 := by
  obtain ⟨⟨frames, u⟩, hu, hm⟩ := ok_of_bind hm
  obtain ⟨v, hv, hm⟩ := ok_of_bind hm
  cases hm
  exact ingressAll_balanced (serveAll_balanced h hu) hv

/-- Closing every adapter of a list gives back what they have queued. -/
theorem closeAll_available (as : List Station) (p : Pool) :
    (closeAll as p).2.available + ((closeAll as p).1.map Adapter.queueLength).sum =
        p.available + (as.map Adapter.queueLength).sum ∧
      (closeAll as p).2.capacity = p.capacity ∧
      (closeAll as p).1.map Adapter.owner = as.map Adapter.owner := by
  induction as generalizing p with
  | nil => exact ⟨rfl, rfl, rfl⟩
  | cons a as ih =>
    obtain ⟨hi, hc, ho⟩ := ih (a.close p).2
    have ha := Adapter.close_conserves (i := 0) a p
    have hb := ha.buffers
    refine ⟨?_, hc.trans ha.capacity, ?_⟩
    · simp only [closeAll, List.map_cons, List.sum_cons]
      omega
    · simp only [closeAll, List.map_cons, ho, ha.owner]

theorem shutdown_balanced (h : n.Balanced i) : n.shutdown.Balanced i := by
  obtain ⟨hs, hc, ho⟩ := closeAll_available n.stations.adapters n.stations.pool
  refine ⟨(ho ▸ h.owners :), ?_⟩
  have hn := h.buffers
  simp only [shutdown, Stations.queued] at hn ⊢
  omega

/-! ### Runs -/

theorem next_balanced (h : n.Balanced 0) (e : Event) (hm : n.next e = .ok m) : m.Balanced 0 := by
  cases e with
  | setOracle | setLinks | addGroup | refusals =>
    cases hm
    exact h.of_stations rfl
  | linkUp link =>
    cases hm
    exact linkUp_balanced h link
  | linkDown name =>
    cases hm
    exact linkDown_balanced h name
  | addInterface name =>
    cases hm
    exact addInterface_balanced h name
  | setDevices name devices =>
    cases hm
    exact setDevices_balanced h name devices
  | setDeviceTx name device on =>
    cases hm
    exact orSame_balanced h fun _ hm => setDeviceTx_balanced h hm
  | bindVif name vif address =>
    cases hm
    exact bindVif_balanced h name vif address
  | setShadow name shadow =>
    cases hm
    exact orSame_balanced h fun _ hm =>
      modifyStation_balanced (g := (·.setShadow shadow)) h (fun _ => rfl) hm
  | setPolicy name policy =>
    cases hm
    exact orSame_balanced h fun _ hm =>
      modifyStation_balanced (g := (·.setPolicy policy)) h (fun _ => rfl) hm
  | setRateLimit name rate now =>
    obtain ⟨r, hr, rfl⟩ := ok_of_map hm
    exact setRateLimit_balanced h hr
  | setQueueDepth name depth =>
    cases hm
    exact orSame_balanced h fun _ hm => setQueueDepth_balanced h hm
  | modifyFlags | addAddress | setGroupPolicy =>
    cases hm
    refine orSame_balanced h fun _ hm => ?_
    obtain ⟨id, -, hm⟩ := ok_of_bind hm
    cases hm
    exact h.of_stations rfl
  | addMember group member role =>
    cases hm
    exact addMember_balanced h group member role
  | associate group =>
    cases hm
    exact associate_balanced h group
  | removeMember group member =>
    cases hm
    exact orSame_balanced h fun _ hm => removeMember_balanced h hm
  | removeGroup group =>
    cases hm
    refine orSame_balanced h fun _ hm => ?_
    obtain ⟨⟨destroyed, m⟩, hr, rfl⟩ := ok_of_map hm
    exact removeGroup_balanced h hr
  | forward destinations f now =>
    obtain ⟨⟨r, m⟩, hr, rfl⟩ := ok_of_map hm
    exact forward_balanced h hr
  | ingress id f now =>
    obtain ⟨⟨r, m⟩, hr, rfl⟩ := ok_of_map hm
    exact ingress_balanced h hr
  | poll now =>
    obtain ⟨⟨r, m⟩, hr, rfl⟩ := ok_of_map hm
    exact poll_balanced h hr
  | shutdown =>
    cases hm
    exact shutdown_balanced h
  | channels change =>
    cases hm
    exact Stations.Balanced.map h fun _ => rfl

theorem reachable_balanced (h : Reachable n) : n.Balanced 0 := by
  induction h with
  | new settings => exact new_balanced settings
  | next e _ hm ih => exact next_balanced ih e hm

/-- In every run the buffers on loan are those in the queues of the adapters, and with the free ones
they make up the pool. -/
theorem reachable_conserves_buffers (h : Reachable n) :
    n.stations.pool.outstanding = (n.stations.adapters.map Adapter.queueLength).sum ∧
      n.stations.pool.available + n.stations.pool.outstanding = n.stations.pool.capacity := by
  have hb := (reachable_balanced h).buffers
  simp only [Stations.queued] at hb
  unfold Pool.outstanding
  omega

/-- A frame that meets a full channel keeps one buffer on loan. -/
theorem blocked_frame_keeps_buffer : ∃ n : Node, Reachable n ∧ n.stations.pool.outstanding = 1 ∧
    n.stations.pool.outstanding = (n.stations.adapters.map Adapter.queueLength).sum ∧
    n.stations.pool.available + n.stations.pool.outstanding = n.stations.pool.capacity := by
  have fresh : Reachable (new { poolSize := 4, frameSize := 64 }) := .new _
  have linked := fresh.next (.setLinks [⟨"wan0", 7, true⟩]) rfl
  have backed := linked.next (.setDevices "wan0" ["wan0"]) rfl
  have full := backed.next (.channels fun d => { d with otherwise := .block }) rfl
  have queued := full.next (.forward [⟨7⟩] [1, 2, 3] 0) rfl
  exact ⟨_, queued, rfl, reachable_conserves_buffers queued⟩

end Node
end MulticastRelay
