import MulticastRelay.Proofs.Config.Captured
import MulticastRelay.Proofs.Config.Reaching

/-! # Interfaces restored

Applying an interface entry in saved form adds that entry to what a capture shows. The interface is
made with the defaults, and each step after that fills in one field.
-/
namespace MulticastRelay

theorem Ascending.insert_last {α : Type} {before : α → α → Bool} {a : α} {xs : List α}
    (h : ∀ b ∈ xs, before a b = false ∧ before b a = true) : insert before a xs = xs ++ [a] := by
  induction xs with
  | nil => rfl
  | cons b bs ih =>
    obtain ⟨hab, hba⟩ := h b List.mem_cons_self
    unfold insert
    rw [if_neg (by simp [hab]), if_pos hba, ih fun c hc => h c (List.mem_cons_of_mem _ hc)]
    rfl

namespace Config

open MulticastRelay.Topology

variable {n m : Node} {s : NodeSettings} {es : List InterfaceEntry} {e : InterfaceEntry}
  {i : Interface} {a b : Station} {name : String} {g : InterfaceEntry → InterfaceEntry}

/-- A node whose interfaces a capture shows as some entries, made one after another under made-up
indices. -/
structure Shows (s : NodeSettings) (es : List InterfaceEntry) (n : Node) : Prop where
  aligned : n.Aligned []
  settings : n.settings = s
  links : n.links = []
  willing : n.host.refused = []
  ascending : (n.topology.interfaces.map Interface.id).Pairwise fun x y => x.before y = true
  bounded : ∀ x ∈ n.topology.interfaces.map Interface.id, x.index ≤ n.lastSynthetic
  entries : n.topology.interfaces.map (captureInterface n) = es

namespace Shows

theorem redress {G : InterfaceEntry → InterfaceEntry} (h : Shows s es n) (hr : Redresses n m G)
    (ha : m.Aligned []) : Shows s (es.map G) m where
  aligned := ha
  settings := hr.settings.trans h.settings
  links := hr.links.trans h.links
  willing := hr.refused.trans h.willing
  ascending := hr.ids ▸ h.ascending
  bounded := by
    rw [hr.ids, hr.lastSynthetic]
    exact h.bounded
  entries := (hr.entries h.aligned).trans (congrArg _ h.entries)

theorem names (h : Shows s es n) : es.map (·.name) = n.topology.interfaces.map Interface.name := by
  rw [← h.entries, List.map_map]
  exact List.map_congr_left fun i _ => captureInterface_name n i

theorem exists_interface (h : Shows s es n) (hn : name ∈ es.map (·.name)) :
    ∃ i, n.topology.interfaceNamed? name = some i := by
  rw [h.names] at hn
  obtain ⟨i, hi, rfl⟩ := List.mem_map.1 hn
  exact ⟨i, exists_interfaceNamed h.aligned hi⟩

theorem interfaceNamed?_eq_none (h : Shows s es n) (hn : name ∉ es.map (·.name)) :
    n.topology.interfaceNamed? name = none := by
  cases hi : n.topology.interfaceNamed? name with
  | none => rfl
  | some i =>
    refine absurd ?_ hn
    rw [h.names, ← interfaceNamed?_name h.aligned hi]
    exact List.mem_map_of_mem (interfaceNamed?_mem hi)

theorem nodup (h : Shows s es n) : (es.map (·.name)).Nodup := by
  rw [h.names]
  refine List.Nodup.map_on (fun i hi j hj hn => ?_) (List.Nodup.of_map _ h.aligned.intact.ids)
  exact interface_of_name h.aligned (exists_interfaceNamed h.aligned hj) hi hn

end Shows

/-- An interface found under a name, with its adapter. -/
structure Serves (n : Node) (name : String) (i : Interface) (a : Station) : Prop where
  interface : n.topology.interfaceNamed? name = some i
  station : n.station? i.id = some a

namespace Serves

theorem interfaceId?_eq (h : Serves n name i a) : n.interfaceId? name = .ok i.id := by
  unfold Node.interfaceId?
  rw [h.interface]

theorem stationNamed?_eq (h : Serves n name i a) : n.stationNamed? name = .ok a := by
  simp [Node.stationNamed?, h.interfaceId?_eq, bind, Except.bind, h.station]

theorem owner (h : Serves n name i a) : a.owner = i.id := Stations.get?_owner h.station

theorem get?_owner (h : Serves n name i a) : n.stations.get? a.owner = some a :=
  h.owner.symm ▸ h.station

theorem station?_replace (h : Serves n name i a) (hb : b.owner = a.owner)
    (hm : m.stations.adapters = (n.stations.replace b).adapters) (x : InterfaceId) :
    m.station? x = if x = i.id then some b else n.station? x := by
  have hrep := Stations.get?_replace (x := x) (hb.symm ▸ h.get?_owner)
  rw [hb, h.owner] at hrep
  unfold Node.station? Stations.get?
  rw [hm]
  exact hrep

theorem modifyStation_eq (h : Serves n name i a) (f : Station → Station) :
    n.modifyStation name f = .ok (n.setStation (f a)) := by
  simp [Node.modifyStation, h.stationNamed?_eq, bind, Except.bind, pure, Except.pure]

theorem setQueueDepth_eq (h : Serves n name i a) (depth : QueueDepth) :
    n.setQueueDepth name depth = .ok { n with
      stations := { n.stations.replace (a.setQueueDepth n.stations.pool depth).1 with
        pool := (a.setQueueDepth n.stations.pool depth).2 } } := by
  simp [Node.setQueueDepth, h.stationNamed?_eq, bind, Except.bind, pure, Except.pure]

theorem setRateLimit_eq {rate : Float} {now : Instant} (h : Serves n name i a)
    (hb : a.setRateLimit rate now = .ok b) :
    n.setRateLimit name rate now = .ok (.ok (n.setStation b)) := by
  unfold Node.setRateLimit
  rw [h.stationNamed?_eq]
  simp [hb, bind, Except.bind, pure, Except.pure]

/-- The new software interface takes the place of the old one, whose device is released. -/
theorem bindVif_eq {vif : String} {d : Device} {host : Host} (h : Serves n name i a)
    (hopen : n.host.open? vif = .ok (d, host)) (address : LinkAddress) :
    n.bindVif name vif address = (.ok (), { n with
      topology := n.topology.modifyInterface i.id fun i =>
        { i with binding := .virtual vif i.binding.devices }
      stations := n.stations.replace ((a.bindVif vif address).bindSource (.new d))
      host := (a.source.map (·.device)).toList.foldl Host.release host }) := by
  let f : Interface → Interface := fun i => { i with binding := .virtual vif i.binding.devices }
  let k : Node := { n with host := host, topology := n.topology.modifyInterface i.id f }
  have hk : k.stationNamed? name = .ok a :=
    Serves.stationNamed?_eq (i := f i)
      ⟨interfaceNamed?_modifyInterface (f := f) h.interface fun _ => rfl, h.station⟩
  unfold Node.bindVif
  rw [h.interfaceId?_eq]
  dsimp only
  rw [hopen]
  dsimp only
  rw [hk]
  rfl

end Serves

/-- An interface made for its devices has none of them yet. -/
theorem setDevices_eq {devices : List String} (hd : devices ≠ [])
    (hx : (n.addInterface name).1 = i.id) (h : Serves (n.addInterface name).2 name i a)
    (ha : a.elements = []) :
    n.setDevices name devices =
      ((Node.attachMissing a (n.addInterface name).2.host devices).1,
        { (n.addInterface name).2 with
          topology := (n.addInterface name).2.topology.modifyInterface i.id fun i =>
            { i with binding := i.binding.withDevices devices }
          stations := (n.addInterface name).2.stations.replace
            (Node.attachMissing a (n.addInterface name).2.host devices).2.1
          host := (Node.attachMissing a (n.addInterface name).2.host devices).2.2 }) := by
  let k := (n.addInterface name).2
  let f : Interface → Interface := fun i => { i with binding := i.binding.withDevices devices }
  have hpair : n.addInterface name = (i.id, k) := Prod.ext hx rfl
  have hst : ({ k with topology := k.topology.modifyInterface i.id f } : Node).station? i.id =
      some a := h.station
  unfold Node.setDevices
  rw [if_neg (by simpa using hd), hpair]
  dsimp only
  rw [hst]
  dsimp only
  rw [ha]
  rfl

/-! ## An interface with the defaults -/

theorem resumeSource_eq (a : Station) : ∃ source suspended,
    a.resumeSource = { a with source := source, sourceSuspended := suspended } := by
  unfold Adapter.resumeSource
  split
  · exact ⟨a.source, a.sourceSuspended, rfl⟩
  · exact ⟨_, _, rfl⟩

theorem setQueueDepth_eq (a : Station) (p : Pool) (depth : QueueDepth) :
    ∃ queue source suspended counters, queue.depth = depth ∧ (a.setQueueDepth p depth).1 =
      { a with queue := queue, source := source, sourceSuspended := suspended,
               counters := counters } := by
  obtain ⟨source, suspended, hr⟩ := resumeSource_eq
    (({ a with queue := (a.queue.setDepth depth).2 }.countDropped (a.queue.setDepth depth).1.length))
  refine ⟨(a.queue.setDepth depth).2, source, suspended, _, ?_, hr⟩
  unfold FrameQueue.setDepth
  split <;> rfl

/-- Nothing was sent yet and no rate was set. -/
def Calm (a : Station) : Prop := a.timer = .idle ∧ a.rate = .unlimited

/-- A node without groups, whose last interface is being filled in. -/
structure Filled (s : NodeSettings) (es : List InterfaceEntry) (n : Node) : Prop
    extends Shows s es n where
  groups : n.topology.groups = []
  matchers : n.topology.matchers = .empty

/-- The last interface has the entry `e` so far, and no rate was set for it. -/
structure Filling (s : NodeSettings) (es : List InterfaceEntry) (e : InterfaceEntry) (n : Node) : Prop
    extends Filled s (es ++ [e]) n where
  calm : ∀ i a, Serves n e.name i a → Calm a

theorem Filled.serves (h : Filled s (es ++ [e]) n) :
    ∃ i a, Serves n e.name i a ∧ (entryOf i).withStation s.defaultQueue a = e := by
  have hin : e.name ∈ (es ++ [e]).map (·.name) := by simp
  obtain ⟨i, hi⟩ := h.exists_interface hin
  obtain ⟨a, ha⟩ := exists_station h.aligned (interface?_of_name h.aligned hi)
  refine ⟨i, a, ⟨hi, ha⟩, ?_⟩
  have hmem : captureInterface n i ∈ es ++ [e] :=
    h.entries ▸ List.mem_map_of_mem (interfaceNamed?_mem hi)
  have hname : (captureInterface n i).name = e.name :=
    (captureInterface_name n i).trans (interfaceNamed?_name h.aligned hi)
  have heq : captureInterface n i = e :=
    List.inj_on_of_nodup_map h.nodup hmem (List.mem_append_right _ (List.mem_singleton_self e)) hname
  rw [← heq, captureInterface_eq ha, h.settings]

/-- The last interface and its adapter take on more of the entry. -/
theorem Filled.put {f : Interface → Interface} (h : Filled s (es ++ [e]) n) (hi : Serves n e.name i a)
    (hal : m.Aligned []) (ht : m.topology = n.topology.modifyInterface i.id f)
    (hf : ∀ j, (f j).id = j.id)
    (hst : ∀ x, m.station? x = if x = i.id then some b else n.station? x)
    (hg : (entryOf (f i)).withStation s.defaultQueue b = g ((entryOf i).withStation s.defaultQueue a))
    (hs : m.settings = n.settings) (hl : m.links = n.links)
    (hr : m.host.refused = n.host.refused) (hy : m.lastSynthetic = n.lastSynthetic) :
    Filled s (es ++ [g e]) m ∧ Serves m e.name (f i) b := by
  have hred : Redresses n m (onName e.name g) :=
    .at h.aligned hi.interface hi.station ht hst (fun j => hf j) (h.settings.symm ▸ hg) hs hl hr hy
  have hfresh : e.name ∉ es.map (·.name) := by
    have hn := h.nodup
    rw [List.map_append] at hn
    exact fun hin => List.disjoint_of_nodup_append hn hin (by simp)
  have hshows := h.redress hred hal
  rw [map_onName g hfresh] at hshows
  refine ⟨⟨hshows, hred.groups.trans h.groups, hred.matchers.trans h.matchers⟩, ?_, ?_⟩
  · rw [ht]
    exact interfaceNamed?_modifyInterface hi.interface fun j => hf j
  · rw [hst, hf i, if_pos rfl]

theorem Serves.unique {j : Interface} (h : Serves n name i a) (h' : Serves n name j b) :
    i = j ∧ a = b := by
  obtain rfl : i = j := Option.some.inj (h.interface.symm.trans h'.interface)
  exact ⟨rfl, Option.some.inj (h.station.symm.trans h'.station)⟩

theorem modifyInterface_id (t : Topology) (x : InterfaceId) : t.modifyInterface x id = t := by
  have hid : Keyed.modify Interface.id x id t.interfaces = t.interfaces := by
    unfold Keyed.modify
    simp
  unfold modifyInterface
  rw [hid]

/-- Only the adapter changes. -/
theorem Filling.station {f : Station → Station} (h : Filling s es e n)
    (hf : ∀ a, (f a).owner = a.owner ∧ (f a).timer = a.timer ∧ (f a).rate = a.rate)
    (hg : ∀ a e, InterfaceEntry.withStation s.defaultQueue (f a) e =
      g (e.withStation s.defaultQueue a))
    (hn : ∀ e, (g e).name = e.name) :
    ∃ m, n.modifyStation e.name f = .ok m ∧ Filling s es (g e) m := by
  obtain ⟨i, a, hi, he⟩ := h.serves
  have hm : n.modifyStation e.name f = .ok (n.setStation (f a)) := hi.modifyStation_eq f
  obtain ⟨hfilled, hserves⟩ := h.put (f := id) (g := g) hi
    (h.aligned.of_roster (Node.modifyStation_roster hm)) (modifyInterface_id _ _).symm (fun _ => rfl)
    (hi.station?_replace (hf a).1 rfl) (hg a _) rfl rfl rfl rfl
  refine ⟨_, hm, hfilled, fun j b hb => ?_⟩
  rw [hn] at hb
  obtain ⟨rfl, rfl⟩ := hserves.unique hb
  obtain ⟨ht, hr⟩ := h.calm i a hi
  exact ⟨(hf a).2.1.trans ht, (hf a).2.2.trans hr⟩

theorem Filling.setPolicy (h : Filling s es e n) (policy : Policy) :
    ∃ m, n.setPolicy e.name policy = .ok m ∧ Filling s es { e with policy } m :=
  h.station (f := (·.setPolicy policy)) (g := fun e => { e with policy })
    (fun _ => ⟨rfl, rfl, rfl⟩) (fun _ _ => rfl) fun _ => rfl

theorem Filling.setShadow (h : Filling s es e n) (shadow : Bool) :
    ∃ m, n.setShadow e.name shadow = .ok m ∧ Filling s es { e with shadow } m :=
  h.station (f := (·.setShadow shadow)) (g := fun e => { e with shadow })
    (fun _ => ⟨rfl, rfl, rfl⟩) (fun _ _ => rfl) fun _ => rfl

/-- Only the interface changes. -/
theorem Filling.interface {f : Interface → Interface} (h : Filling s es e n)
    (hf : ∀ j, (f j).id = j.id ∧ (f j).name = j.name ∧ (f j).associates = j.associates)
    (hg : ∀ i a, (entryOf i).withStation s.defaultQueue a = e →
      (entryOf (f i)).withStation s.defaultQueue a = g e)
    (hn : (g e).name = e.name) :
    ∃ i, n.interfaceId? e.name = .ok i ∧
      Filling s es (g e) { n with topology := n.topology.modifyInterface i f } := by
  obtain ⟨i, a, hi, he⟩ := h.serves
  have hst : ∀ x, n.station? x = if x = i.id then some a else n.station? x := fun x => by
    by_cases hx : x = i.id
    · rw [if_pos hx, hx, hi.station]
    · rw [if_neg hx]
  obtain ⟨hfilled, hserves⟩ := h.put (f := f) (g := g)
    (m := { n with topology := n.topology.modifyInterface i.id f }) hi
    (Node.modifyInterface_aligned h.aligned i.id hf) rfl (fun j => (hf j).1) hst
    ((hg i a he).trans (congrArg g he.symm)) rfl rfl rfl rfl
  refine ⟨i.id, hi.interfaceId?_eq, hfilled, fun j b hb => ?_⟩
  rw [hn] at hb
  obtain ⟨rfl, rfl⟩ := hserves.unique hb
  exact h.calm i a hi

theorem Filling.modifyFlags (h : Filling s es e n) (c : InterfaceEntry) :
    ∃ m, n.modifyFlags e.name c.flags = .ok m ∧
      Filling s es { e with
        reliable := c.reliable
        layered := c.layered
        blockIGMP := c.blockIGMP
        divertOutput := c.divertOutput } m := by
  obtain ⟨x, hx, hm⟩ := h.interface (f := fun i => { i with flags := c.flags i.flags })
    (g := fun e => { e with
      reliable := c.reliable
      layered := c.layered
      blockIGMP := c.blockIGMP
      divertOutput := c.divertOutput })
    (fun _ => ⟨rfl, rfl, rfl⟩) (by rintro i a rfl; rfl) rfl
  refine ⟨_, ?_, hm⟩
  simp [Node.modifyFlags, hx, bind, Except.bind, pure, Except.pure]

theorem Filling.addAddress (h : Filling s es e n) {address : IPAddress}
    (ha : address ∉ e.addresses) :
    ∃ m, n.addAddress e.name address = .ok m ∧
      Filling s es { e with addresses := e.addresses ++ [address] } m := by
  obtain ⟨x, hx, hm⟩ := h.interface (f := (·.addAddress address))
    (g := fun e => { e with addresses := e.addresses ++ [address] })
    (fun i => by unfold Interface.addAddress; split <;> exact ⟨rfl, rfl, rfl⟩)
    (fun i a he => by
      subst he
      have hin : address ∉ i.addresses := ha
      have hnew : ¬i.addresses.contains address = true := by simpa using hin
      unfold Interface.addAddress
      rw [if_neg hnew]
      rfl) rfl
  refine ⟨_, ?_, hm⟩
  simp [Node.addAddress, hx, bind, Except.bind, pure, Except.pure]

theorem Filling.setQueueDepth (h : Filling s es e n) (depth : QueueDepth)
    (hd : depth ≠ s.defaultQueue) :
    ∃ m, n.setQueueDepth e.name depth = .ok m ∧
      Filling s es { e with queue := some depth.toConfig } m := by
  obtain ⟨i, a, hi, he⟩ := h.serves
  obtain ⟨queue, source, suspended, counters, hq, ha⟩ := setQueueDepth_eq a n.stations.pool depth
  have hm := hi.setQueueDepth_eq depth
  have hg : (entryOf i).withStation s.defaultQueue (a.setQueueDepth n.stations.pool depth).1 =
      { (entryOf i).withStation s.defaultQueue a with queue := some depth.toConfig } := by
    rw [ha]
    unfold InterfaceEntry.withStation
    dsimp only
    rw [hq, if_neg hd]
  obtain ⟨hfilled, hserves⟩ := h.put (f := id)
    (g := fun e => { e with queue := some depth.toConfig }) hi
    (h.aligned.of_roster (Node.setQueueDepth_roster hm)) (modifyInterface_id _ _).symm (fun _ => rfl)
    (hi.station?_replace (by rw [ha]) rfl) hg rfl rfl rfl rfl
  refine ⟨_, hm, hfilled, fun j b hb => ?_⟩
  obtain ⟨rfl, rfl⟩ := hserves.unique hb
  rw [ha]
  exact h.calm i a hi

/-- A first rate is taken at any time that has not run out. -/
theorem setRateLimit_calm (rate : Float) {now : Instant} (ha : Calm a)
    (hnow : now < Instant.secondsBound * Duration.perSecond) :
    ∃ timer, a.setRateLimit rate now =
      .ok { a with rate := .ofBytesPerSecond rate, timer := timer } := by
  obtain ⟨ht, hr⟩ := ha
  have harmed : a.timer.isArmed = false := by rw [ht]; rfl
  unfold Adapter.setRateLimit
  dsimp only
  cases hlimit : RateLimit.ofBytesPerSecond rate with
  | unlimited =>
    refine ⟨a.timer, ?_⟩
    rw [harmed, hr]
    simp [RateLimit.isSuspended]
  | suspended => exact ⟨.idle, rfl⟩
  | bytesPerSecond new =>
    rw [harmed, hr]
    cases hp : a.outputPending with
    | true => exact ⟨a.timer, by simp [RateLimit.isPaced]⟩
    | false =>
      refine ⟨{ deadline := some now }, ?_⟩
      simp [RateLimit.isPaced, PacingTimer.arm_now hnow, Except.map]

theorem Filling.setRate {now : Instant} (h : Filling s es e n) (rate : Float)
    (hnow : now < Instant.secondsBound * Duration.perSecond) :
    ∃ m, n.setRateLimit e.name rate now = .ok (.ok m) ∧
      Filled s (es ++ [{ e with
        rate := .ofFloat (RateLimit.ofBytesPerSecond rate).toBytesPerSecond }]) m := by
  obtain ⟨i, a, hi, he⟩ := h.serves
  obtain ⟨timer, ha⟩ := setRateLimit_calm rate (h.calm i a hi) hnow
  have hm := hi.setRateLimit_eq ha
  refine ⟨_, hm, (h.put (f := id) (b := { a with rate := .ofBytesPerSecond rate, timer := timer })
    (g := fun e => { e with
      rate := .ofFloat (RateLimit.ofBytesPerSecond rate).toBytesPerSecond }) hi
    (h.aligned.of_roster (Node.setRateLimit_roster hm)) (modifyInterface_id _ _).symm (fun _ => rfl)
    (hi.station?_replace rfl rfl) rfl rfl rfl rfl rfl).1⟩

theorem Filled.bindVif (h : Filled s (es ++ [e]) n) (vif : String) (address : LinkAddress) :
    ∃ m, n.bindVif e.name vif address = (.ok (), m) ∧
      Filled s (es ++ [{ e with vif := some vif, vifAddress := some address.render }]) m := by
  obtain ⟨i, a, hi, he⟩ := h.serves
  obtain ⟨d, host, hopen, hwilling⟩ := open?_of_willing h.willing vif
  let f : Interface → Interface := fun i => { i with binding := .virtual vif i.binding.devices }
  have hm := hi.bindVif_eq hopen address
  have haligned := Node.bindVif_aligned h.aligned e.name vif address
  rw [hm] at haligned
  have hrefused : ((a.source.map (·.device)).toList.foldl Host.release host).refused = [] := by
    cases a.source <;> exact hwilling
  exact ⟨_, hm, (h.put (f := f) (b := (a.bindVif vif address).bindSource (.new d))
    (g := fun e => { e with vif := some vif, vifAddress := some address.render }) hi haligned rfl
    (fun _ => rfl) (hi.station?_replace rfl rfl) rfl rfl rfl (hrefused.trans h.willing.symm) rfl).1⟩

/-! ## A new interface -/

theorem captureInterface_congr (hs : m.settings = n.settings)
    (hst : m.station? i.id = n.station? i.id) : captureInterface m i = captureInterface n i := by
  unfold captureInterface
  rw [hs, hst]

/-- From `n` to `m` an interface appears under the index made up next, with an adapter as new. -/
structure Appears (n m : Node) (name : String) (b : Station) : Prop where
  settings : m.settings = n.settings
  links : m.links = n.links
  refused : m.host.refused = n.host.refused
  lastSynthetic : m.lastSynthetic = n.lastSynthetic + 1
  groups : m.topology.groups = n.topology.groups
  matchers : m.topology.matchers = n.topology.matchers
  interfaces : m.topology.interfaces =
    n.topology.interfaces ++ [.new ⟨n.lastSynthetic + 1⟩ name]
  station : ∀ x, m.station? x = if ⟨n.lastSynthetic + 1⟩ = x then some b else n.station? x
  calm : Calm b
  elements : b.elements = []
  entry : (entryOf (.new ⟨n.lastSynthetic + 1⟩ name)).withStation n.settings.defaultQueue b = { name }

/-- The index made up next is not taken. -/
theorem Shows.next_free (h : Shows s es n) : n.topology.interface? ⟨n.lastSynthetic + 1⟩ = none ∧
    n.station? ⟨n.lastSynthetic + 1⟩ = none := by
  have hfree : ¬n.topology.Has ⟨n.lastSynthetic + 1⟩ := fun hin => by
    have := h.bounded _ hin
    dsimp only at this
    omega
  constructor
  · cases hi : n.topology.interface? ⟨n.lastSynthetic + 1⟩ with
    | none => rfl
    | some i => exact absurd (has_iff.2 ⟨i, hi⟩) hfree
  · cases ha : n.station? ⟨n.lastSynthetic + 1⟩ with
    | none => rfl
    | some a =>
      exact absurd (h.aligned.present _ (Node.mans_iff.2 (Option.isSome_iff_exists.2 ⟨a, ha⟩))) hfree

/-- A new adapter carries the defaults. -/
theorem new_adapter (x : InterfaceId) (name : String) (p : Pool) (q : QueueDepth) :
    Calm ((Adapter.new x name : Station).setQueueDepth p q).1 ∧
      ((Adapter.new x name : Station).setQueueDepth p q).1.elements = [] ∧
      ((Adapter.new x name : Station).setQueueDepth p q).1.owner = x ∧
      (entryOf (.new x name)).withStation q ((Adapter.new x name : Station).setQueueDepth p q).1 =
        { name } := by
  obtain ⟨queue, source, suspended, counters, hq, hb⟩ := setQueueDepth_eq (Adapter.new x name) p q
  have hdevices : deviceFields name [name] = (none, []) := if_pos rfl
  rw [hb]
  refine ⟨⟨rfl, rfl⟩, rfl, rfl, ?_⟩
  unfold InterfaceEntry.withStation entryOf Interface.new
  dsimp only [DeviceBinding.devices]
  rw [hq, if_pos rfl, hdevices]
  rfl

/-- A new name gets an index made up for it. -/
theorem Shows.indexFor_eq (h : Shows s es n) (hn : name ∉ es.map (·.name)) :
    n.indexFor name =
      (⟨n.lastSynthetic + 1⟩, { n with lastSynthetic := n.lastSynthetic + 1 }) := by
  unfold Node.indexFor Node.link?
  rw [h.interfaceNamed?_eq_none hn, h.links]
  rfl

/-- The interface of the index made up next comes last. -/
theorem Shows.addInterface_eq (h : Shows s es n) (name : String) :
    n.topology.addInterface ⟨n.lastSynthetic + 1⟩ name =
      { n.topology with
        interfaces := n.topology.interfaces ++ [.new ⟨n.lastSynthetic + 1⟩ name]
        names := bindName n.topology.names name ⟨n.lastSynthetic + 1⟩ } := by
  unfold Topology.addInterface
  rw [h.next_free.1, Ascending.insert_last fun i hi => ?_]
  have hle : i.id.index ≤ n.lastSynthetic := h.bounded _ (List.mem_map_of_mem hi)
  exact ⟨decide_eq_false (Nat.not_lt.2 (Nat.le_succ_of_le hle)),
    decide_eq_true (Nat.lt_succ_of_le hle)⟩

theorem Shows.addInterface_appears (h : Shows s es n) (hn : name ∉ es.map (·.name)) :
    (n.addInterface name).1 = ⟨n.lastSynthetic + 1⟩ ∧
      ∃ b, Appears n (n.addInterface name).2 name b := by
  let x : InterfaceId := ⟨n.lastSynthetic + 1⟩
  let k : Node := { n with
    lastSynthetic := n.lastSynthetic + 1
    topology := n.topology.addInterface x name }
  have hidle : n.station? x = none := h.next_free.2
  have hnone : ¬(k.station? x).isSome = true := by
    have hk : k.station? x = none := hidle
    rw [hk]
    exact Bool.false_ne_true
  have hk : n.addInterface name = (x, k.ensureStation x name) := by
    unfold Node.addInterface
    rw [h.indexFor_eq hn]
  obtain ⟨hcalm, helements, howner, hentry⟩ :=
    new_adapter x name n.stations.pool n.settings.defaultQueue
  rw [hk]
  unfold Node.ensureStation
  rw [if_neg hnone]
  have hgroups := congrArg Topology.groups (h.addInterface_eq name)
  have hmatchers := congrArg Topology.matchers (h.addInterface_eq name)
  have hinterfaces := congrArg Topology.interfaces (h.addInterface_eq name)
  refine ⟨rfl, ((Adapter.new x name : Station).setQueueDepth n.stations.pool
    n.settings.defaultQueue).1, rfl, rfl, rfl, rfl, hgroups, hmatchers, hinterfaces, fun y => ?_,
    hcalm, helements, hentry⟩
  have hget := Stations.get?_insert (howner.symm ▸ hidle) y
  rw [howner] at hget
  exact hget

/-- A new interface has the default entry of its name. -/
theorem Filled.appear {b : Station} (h : Filled s es n) (hm : Appears n m name b)
    (ha : m.Aligned []) : Filling s es { name } m ∧
      Serves m name (.new ⟨n.lastSynthetic + 1⟩ name) b := by
  let x : InterfaceId := ⟨n.lastSynthetic + 1⟩
  have hlt : ∀ y ∈ n.topology.interfaces.map Interface.id, y.index < x.index := fun y hy =>
    Nat.lt_succ_of_le (h.bounded y hy)
  have hids : m.topology.interfaces.map Interface.id =
      n.topology.interfaces.map Interface.id ++ [x] := by
    rw [hm.interfaces, List.map_append]
    rfl
  have hst : m.station? x = some b := by rw [hm.station, if_pos rfl]
  have hold : n.topology.interfaces.map (captureInterface m) = es := by
    rw [← h.entries]
    refine List.map_congr_left fun i hi => captureInterface_congr hm.settings ?_
    have hne : x ≠ i.id := fun he => by
      have := hlt i.id (List.mem_map_of_mem hi)
      rw [← he] at this
      omega
    rw [hm.station, if_neg hne]
  have hnew : captureInterface m (.new x name) = { name } := by
    rw [captureInterface_eq hst, hm.settings]
    exact hm.entry
  have hserves : Serves m name (.new x name) b :=
    ⟨exists_interfaceNamed (i := .new x name) ha
      (hm.interfaces ▸ List.mem_append_right _ (List.mem_singleton_self _)), hst⟩
  refine ⟨⟨⟨⟨ha, hm.settings.trans h.settings, hm.links.trans h.links,
    hm.refused.trans h.willing, ?_, ?_, ?_⟩, hm.groups.trans h.groups,
    hm.matchers.trans h.matchers⟩, fun i a hi => ?_⟩, hserves⟩
  · rw [hids]
    refine List.pairwise_append.2 ⟨h.ascending, List.pairwise_singleton _ _, fun y hy z hz => ?_⟩
    rw [List.mem_singleton.1 hz]
    exact decide_eq_true (hlt y hy)
  · rw [hids, hm.lastSynthetic]
    intro y hy
    rcases List.mem_append.1 hy with hy | hy
    · exact Nat.le_succ_of_le (h.bounded y hy)
    · rw [List.mem_singleton.1 hy]
  · rw [hm.interfaces, List.map_append, hold]
    exact congrArg (es ++ [·]) hnew
  · obtain ⟨rfl, rfl⟩ := hserves.unique hi
    exact hm.calm

theorem ofDevices_devices (devices : List String) :
    (DeviceBinding.ofDevices devices).devices = devices := by
  unfold DeviceBinding.ofDevices
  split <;> rfl

theorem ofDevices_vif? (devices : List String) : (DeviceBinding.ofDevices devices).vif? = none := by
  unfold DeviceBinding.ofDevices
  split <;> rfl

/-- A new interface is backed with its devices. -/
theorem Filled.setDevices {devices : List String} (h : Filled s es n) (hn : name ∉ es.map (·.name))
    (hd : devices ≠ []) :
    ∃ m, n.setDevices name devices = (.ok (), m) ∧
      Filling s es { name
                     device := (deviceFields name devices).1
                     devices := (deviceFields name devices).2 } m := by
  obtain ⟨hx, b, hb⟩ := h.addInterface_appears hn
  obtain ⟨hfilling, hserves⟩ := h.appear hb (Node.addInterface_aligned h.aligned name)
  have haligned := Node.setDevices_aligned h.aligned name devices
  let x : InterfaceId := ⟨n.lastSynthetic + 1⟩
  let f : Interface → Interface := fun i => { i with binding := i.binding.withDevices devices }
  have hatt := attachMissing_attached (a := b) hfilling.willing devices
  have hm := setDevices_eq hd hx hserves hb.elements
  rw [hm] at haligned ⊢
  obtain ⟨elements, helements⟩ := hatt.station
  rw [hatt.ok, helements] at haligned ⊢
  let c : Station := { b with composite := { b.composite with elements } }
  have hg : (entryOf (f (.new x name))).withStation s.defaultQueue c =
      { (entryOf (.new x name)).withStation s.defaultQueue b with
        device := (deviceFields name devices).1
        devices := (deviceFields name devices).2 } := by
    unfold entryOf InterfaceEntry.withStation
    simp only [f, Interface.new, DeviceBinding.withDevices, ofDevices_devices, ofDevices_vif?]
    rfl
  obtain ⟨hfilled, hserves'⟩ := hfilling.put (f := f) (g := fun e => { e with
      device := (deviceFields name devices).1
      devices := (deviceFields name devices).2 }) hserves haligned rfl (fun _ => rfl)
    (hserves.station?_replace (b := c) rfl rfl) hg rfl rfl
    (hatt.refused.trans hfilling.willing.symm) rfl
  refine ⟨_, rfl, hfilled, fun i a hi => ?_⟩
  obtain ⟨rfl, rfl⟩ := hserves'.unique hi
  exact hb.calm

/-! ## An entry -/

open Applying

/-- What stands after the fields before the queue depth. -/
def InterfaceEntry.beforeQueue (e : InterfaceEntry) : InterfaceEntry :=
  { e with vif := none, vifAddress := none, rate := .ofFloat (-1), queue := none }

/-- The rate and the software interface come last. -/
theorem applyInterface_end {q : Int} {now : Instant} (he : e.Saved q)
    (hnow : now < Instant.secondsBound * Duration.perSecond) :
    Reaches (Filling s es { e.beforeQueue with queue := e.queue }) (do
      setRate e.name e.rate.toFloat now
      match e.vif with
      | none => pure ()
      | some vif =>
        match e.vifAddress with
        | none => throw (.invalid s!"{e.name}: vif {vif} needs vif_address")
        | some text =>
          let address ← (linkAddress text : Except ConfigError LinkAddress)
          step (·.bindVif e.name vif address)) fun _ => Filled s (es ++ [e.reread]) := by
  let e₁ : InterfaceEntry := { e.reread with vif := none, vifAddress := none }
  refine reaches_bind (Q := fun _ => Filled s (es ++ [e₁]))
    (reaches_setRate fun n hn => hn.setRate e.rate.toFloat hnow) fun _ => ?_
  rcases he.vif with ⟨hv, ha⟩ | ⟨vif, text, hv, ha, hw⟩
  · rw [hv]
    have hsame : e₁ = e.reread := by
      obtain ⟨⟩ := e
      cases hv
      cases ha
      rfl
    rw [hsame]
    exact reaches_pure fun _ hn => hn
  · obtain ⟨address, rfl⟩ := hw.eq_render
    rw [hv, ha]
    have hread : linkAddress address.render = .ok address := by
      unfold linkAddress
      rw [LinkAddress.parse?_render]
    refine reaches_bind (reaches_lift hread) fun a => reaches_of_fact fun heq => ?_
    subst heq
    have hsame : { e₁ with vif := some vif, vifAddress := some a.render } = e.reread := by
      obtain ⟨⟩ := e
      cases hv
      cases ha
      rfl
    rw [← hsame]
    refine reaches_step fun n hn => ?_
    obtain ⟨m, hm, hf⟩ := hn.bindVif vif a
    exact ⟨(), m, hm, hf⟩

/-- An entry in saved form is added as it is read back. -/
theorem applyInterface_reaches {q : Int} {now : Instant} (hs : s.defaultQueue = .ofConfig q)
    (hq : CanonicalDepth q) (he : e.Saved q) (hn : e.name ∉ es.map (·.name))
    (hnow : now < Instant.secondsBound * Duration.perSecond) :
    Reaches (Filled s es) (applyInterface e now) fun _ => Filled s (es ++ [e.reread]) := by
  let e₁ : InterfaceEntry := { name := e.name, device := e.device, devices := e.devices }
  let e₂ : InterfaceEntry := { e₁ with policy := e.policy }
  let e₃ : InterfaceEntry := { e₂ with shadow := e.shadow }
  let e₄ : InterfaceEntry := { e₃ with
    reliable := e.reliable, layered := e.layered, blockIGMP := e.blockIGMP,
    divertOutput := e.divertOutput }
  unfold applyInterface
  refine reaches_bind (Q := fun _ => Filling s es e₁) (reaches_step fun n hf => ?_) fun _ => ?_
  · obtain ⟨m, hm, hfilling⟩ := hf.setDevices hn e.deviceList_ne_nil
    rw [he.deviceFields] at hfilling
    exact ⟨(), m, hm, hfilling⟩
  refine reaches_bind (Q := fun _ => Filling s es e₂)
    (reaches_change fun n hf => hf.setPolicy e.policy) fun _ => ?_
  refine reaches_bind (Q := fun _ => Filling s es e₃)
    (reaches_change fun n hf => hf.setShadow e.shadow) fun _ => ?_
  refine reaches_bind (Q := fun _ => Filling s es e₄)
    (reaches_change fun n hf => hf.modifyFlags e) fun _ => ?_
  refine reaches_bind (Q := fun _ => Filling s es e.beforeQueue)
    (reaches_forM (I := fun done => Filling s es { e₄ with addresses := done })
      fun done a rest hsplit => reaches_change fun n hf => hf.addAddress fun hin => ?_) fun _ => ?_
  · have hnodup := he.addresses
    rw [hsplit] at hnodup
    exact List.disjoint_of_nodup_append hnodup hin List.mem_cons_self
  cases hqueue : e.queue with
  | none =>
    have hend : Reaches (Filling s es { e.beforeQueue with queue := e.queue }) _ _ :=
      applyInterface_end he hnow
    rw [hqueue] at hend
    exact hend
  | some depth =>
    obtain ⟨hcanon, hne⟩ := he.queue depth hqueue
    refine reaches_bind (Q := fun _ => Filling s es { e.beforeQueue with queue := e.queue })
      (reaches_change fun n hf => ?_) fun _ => applyInterface_end he hnow
    obtain ⟨m, hm, hf⟩ := hf.setQueueDepth (.ofConfig depth) fun heq =>
      hne (QueueDepth.ofConfig_inj hcanon hq (heq.trans hs))
    rw [QueueDepth.toConfig_ofConfig hcanon] at hf
    exact ⟨m, hm, hqueue ▸ hf⟩

end Config
end MulticastRelay
