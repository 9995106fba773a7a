import MulticastRelay.Proofs.Config.GroupsRestored
import MulticastRelay.Proofs.Config.HotPlug

/-! # Interfaces loaded

Interface entries of distinct names are applied without an error to a node with a table of links, as
long as every device opens. A new name gets an index that no interface has: that of its link, or one
made up. Its adapter is new, so that nothing is in the way of its rate.
-/
namespace MulticastRelay

namespace Config

open MulticastRelay.Topology Applying

variable {links : List Link} {names devices : List String} {n m : Node} {name vif : String}
  {i : Interface} {a b : Station} {x : InterfaceId} {e : InterfaceEntry} {now : Instant}
  {P Q : Station → Prop}

/-- A software interface comes with an address that can be read. -/
def InterfaceEntry.Loadable (e : InterfaceEntry) : Prop :=
  ∀ vif, e.vif = some vif → ∃ text address, e.vifAddress = some text ∧
    LinkAddress.parse? text = some address

/-- A node without groups whose interfaces have names of a list, over a table of links. -/
structure Loading (links : List Link) (names : List String) (n : Node) : Prop where
  applied : Applied links [] n
  aligned : n.Aligned []
  willing : n.host.refused = []
  named : ∀ x y, n.topology.nameOf? x = some y → y ∈ names

/-- The interface of a name is there besides, with an adapter of which `P` holds. -/
structure Fitted (links : List Link) (names : List String) (name : String) (P : Station → Prop)
    (n : Node) : Prop extends Loading links names n where
  serves : ∃ i a, Serves n name i a ∧ P a

namespace Loading

theorem of_roster (h : Loading links names n) (hr : Node.SameRoster n m)
    (hw : m.host.refused = n.host.refused) : Loading links names m where
  applied := h.applied.of_graph hr.toSameGraph
  aligned := h.aligned.of_roster hr
  willing := hw.trans h.willing
  named x y hx := h.named x y (hr.topology ▸ hx)

theorem modifyInterface (h : Loading links names n) (id : InterfaceId) {f : Interface → Interface}
    (hf : ∀ j, (f j).id = j.id ∧ (f j).name = j.name ∧ (f j).associates = j.associates) :
    Loading links names { n with topology := n.topology.modifyInterface id f } where
  applied := h.applied.modifyInterface id hf
  aligned := Node.modifyInterface_aligned h.aligned id hf
  willing := h.willing
  named x y hx := by
    have hsame : (n.topology.modifyInterface id f).nameOf? x = n.topology.nameOf? x :=
      (modifyInterface_recast (fun j _ => (hf j).2.1) fun j hj => (hf j).1.trans hj).naming x
    exact h.named x y (hsame.symm.trans hx)

/-! ## A new interface -/

theorem interfaceNamed?_eq_none (h : Loading links names n) (hn : name ∉ names) :
    n.topology.interfaceNamed? name = none := by
  cases hi : n.topology.interfaceNamed? name with
  | none => rfl
  | some i =>
    refine absurd ?_ hn
    have hx : n.topology.nameOf? i.id = some i.name :=
      congrArg (Option.map Interface.name) (interface?_of_name h.aligned hi)
    exact interfaceNamed?_name h.aligned hi ▸ h.named i.id i.name hx

theorem fits (h : Loading links names n) (hn : name ∉ names) :
    n.topology.Fits (n.indexFor name).1 name := by
  unfold Node.indexFor
  rw [h.interfaceNamed?_eq_none hn]
  cases hl : n.link? name with
  | some l =>
    obtain ⟨hlist, rfl⟩ := h.applied.standing.listed_of_link? hl
    exact h.applied.standing.depicts.placed.fits l hlist
  | none =>
    exact h.applied.standing.depicts.placed.fits_synthetic fun y hy => hn (h.named y name hy)

/-- The index for a new name is not taken. -/
theorem index_free (h : Loading links names n) (hn : name ∉ names) :
    n.topology.interface? (n.indexFor name).1 = none ∧ n.station? (n.indexFor name).1 = none := by
  have hnone : n.topology.interface? (n.indexFor name).1 = none := by
    cases hi : n.topology.interface? (n.indexFor name).1 with
    | none => rfl
    | some i =>
      have hx : n.topology.nameOf? (n.indexFor name).1 = some i.name :=
        congrArg (Option.map Interface.name) hi
      have hname : i.name = name := (h.fits hn _ _ hx).1 rfl
      exact absurd (hname ▸ h.named _ _ hx) hn
  refine ⟨hnone, ?_⟩
  cases hs : n.station? (n.indexFor name).1 with
  | none => rfl
  | some a =>
    have hhas := h.aligned.present _ (Node.mans_iff.2 (Option.isSome_iff_exists.2 ⟨a, hs⟩))
    obtain ⟨i, hi⟩ := has_iff.1 hhas
    rw [hnone] at hi
    cases hi

end Loading

/-- An interface without an adapter gets a new one. -/
theorem ensureStation_new (hs : n.station? x = none) (name : String) :
    ∃ b, (n.ensureStation x name).station? x = some b ∧ Calm b ∧ b.elements = [] := by
  obtain ⟨hcalm, helements, howner, -⟩ :=
    new_adapter x name n.stations.pool n.settings.defaultQueue
  refine ⟨_, ?_, hcalm, helements⟩
  have hnone : ¬(n.station? x).isSome = true := by simp [hs]
  have hget := Stations.get?_insert (s := n.stations) (howner.symm ▸ hs) x
  unfold Node.ensureStation
  rw [if_neg hnone]
  rw [howner, if_pos rfl] at hget
  exact hget

/-- The interface of a new name comes with a new adapter. -/
theorem Loading.addInterface (h : Loading links names n) (hl : LinkNames links)
    (hn : name ∉ names) :
    Loading links (names ++ [name]) (n.addInterface name).2 ∧
      ∃ i b, Serves (n.addInterface name).2 name i b ∧ i.id = (n.addInterface name).1 ∧
        Calm b ∧ b.elements = [] := by
  let x := (n.indexFor name).1
  have haligned := Node.addInterface_aligned h.aligned name
  have hnames : ∀ y, (n.addInterface name).2.topology.nameOf? y =
      if y = x then some name else n.topology.nameOf? y := by
    intro y
    rw [Node.addInterface_topology]
    exact nameOf?_addInterface h.applied.standing.depicts.settled.sound (h.fits hn)
  constructor
  · refine ⟨h.applied.addInterface hl name, haligned, ?_, fun y z hz => ?_⟩
    · rw [Node.addInterface_host]
      exact h.willing
    · rw [hnames y] at hz
      split at hz
      · cases hz
        exact List.mem_append_right _ List.mem_cons_self
      · exact List.mem_append_left _ (h.named y z hz)
  · have hx : (n.addInterface name).2.topology.nameOf? x = some name := by
      rw [hnames, if_pos rfl]
    obtain ⟨i, hi, hname⟩ := Option.map_eq_some_iff.1 hx
    obtain ⟨hmem, hid⟩ := Keyed.get?_mem hi
    have hbare : Node.station? { (n.indexFor name).2 with
        topology := (n.indexFor name).2.topology.addInterface x name } x = none := by
      unfold Node.station?
      dsimp only
      rw [Node.indexFor_stations]
      exact (h.index_free hn).2
    obtain ⟨b, hb, hcalm, helements⟩ := ensureStation_new hbare name
    have hfound := exists_interfaceNamed haligned hmem
    rw [hname] at hfound
    refine ⟨i, b, ⟨hfound, ?_⟩, hid, hcalm, helements⟩
    rw [show i.id = x from hid]
    exact hb

/-! ## Fields filled in -/

namespace Fitted

/-- The interface and its adapter change. -/
theorem put {f : Interface → Interface} (h : Loading links names m) (hi : Serves n name i a)
    (ht : m.topology = n.topology.modifyInterface i.id f) (hf : ∀ j, (f j).id = j.id)
    (hst : m.station? i.id = some b) (hb : P b) : Fitted links names name P m := by
  refine ⟨h, f i, b, ⟨?_, ?_⟩, hb⟩
  · rw [ht]
    exact interfaceNamed?_modifyInterface hi.interface hf
  · rw [hf i]
    exact hst

/-- Only the adapter changes. -/
theorem station (h : Fitted links names name P n) {f : Station → Station}
    (hf : ∀ a, (f a).owner = a.owner ∧ (P a → Q (f a))) :
    ∃ m, n.modifyStation name f = .ok m ∧ Fitted links names name Q m := by
  obtain ⟨i, a, hi, ha⟩ := h.serves
  have hm : n.modifyStation name f = .ok (n.setStation (f a)) := hi.modifyStation_eq f
  refine ⟨_, hm, .put (h.toLoading.of_roster (Node.modifyStation_roster hm) rfl) hi
    (modifyInterface_id _ _).symm (fun _ => rfl) ?_ ((hf a).2 ha)⟩
  rw [hi.station?_replace (hf a).1 rfl, if_pos rfl]

/-- Only the interface changes. -/
theorem interface (h : Fitted links names name P n) {f : Interface → Interface}
    (hf : ∀ j, (f j).id = j.id ∧ (f j).name = j.name ∧ (f j).associates = j.associates) :
    ∃ id, n.interfaceId? name = .ok id ∧
      Fitted links names name P { n with topology := n.topology.modifyInterface id f } := by
  obtain ⟨i, a, hi, ha⟩ := h.serves
  exact ⟨i.id, hi.interfaceId?_eq,
    .put (h.toLoading.modifyInterface i.id hf) hi rfl (fun j => (hf j).1) hi.station ha⟩

theorem modifyFlags (h : Fitted links names name P n) (change : InterfaceFlags → InterfaceFlags) :
    ∃ m, n.modifyFlags name change = .ok m ∧ Fitted links names name P m := by
  obtain ⟨id, hid, hm⟩ := h.interface (f := fun i => { i with flags := change i.flags })
    fun _ => ⟨rfl, rfl, rfl⟩
  refine ⟨_, ?_, hm⟩
  simp [Node.modifyFlags, hid, bind, Except.bind, pure, Except.pure]

theorem addAddress (h : Fitted links names name P n) (address : IPAddress) :
    ∃ m, n.addAddress name address = .ok m ∧ Fitted links names name P m := by
  obtain ⟨id, hid, hm⟩ := h.interface (f := (·.addAddress address)) fun i => by
    unfold Interface.addAddress
    split <;> exact ⟨rfl, rfl, rfl⟩
  refine ⟨_, ?_, hm⟩
  simp [Node.addAddress, hid, bind, Except.bind, pure, Except.pure]

theorem setQueueDepth (h : Fitted links names name Calm n) (depth : QueueDepth) :
    ∃ m, n.setQueueDepth name depth = .ok m ∧ Fitted links names name Calm m := by
  obtain ⟨i, a, hi, ha⟩ := h.serves
  obtain ⟨queue, source, suspended, counters, -, hb⟩ := setQueueDepth_eq a n.stations.pool depth
  have hm := hi.setQueueDepth_eq depth
  refine ⟨_, hm, .put (b := (a.setQueueDepth n.stations.pool depth).1)
    (h.toLoading.of_roster (Node.setQueueDepth_roster hm) rfl) hi
    (modifyInterface_id _ _).symm (fun _ => rfl) ?_ ?_⟩
  · rw [hi.station?_replace (by rw [hb]) rfl, if_pos rfl]
  · rw [hb]
    exact ha

/-- The first rate of an adapter is taken. -/
theorem setRate (h : Fitted links names name Calm n) (rate : Float)
    (hnow : now < Instant.secondsBound * Duration.perSecond) :
    ∃ m, n.setRateLimit name rate now = .ok (.ok m) ∧
      Fitted links names name (fun _ => True) m := by
  obtain ⟨i, a, hi, ha⟩ := h.serves
  obtain ⟨timer, hb⟩ := setRateLimit_calm rate ha hnow
  have hm := hi.setRateLimit_eq hb
  let b : Station := { a with rate := .ofBytesPerSecond rate, timer := timer }
  refine ⟨_, hm, .put (b := b) (h.toLoading.of_roster (Node.setRateLimit_roster hm) rfl) hi
    (modifyInterface_id _ _).symm (fun _ => rfl) ?_ trivial⟩
  rw [hi.station?_replace (b := b) rfl rfl, if_pos rfl]

theorem bindVif (h : Fitted links names name P n) (vif : String) (address : LinkAddress) :
    ∃ m, n.bindVif name vif address = (.ok (), m) ∧ Loading links names m := by
  obtain ⟨i, a, hi, -⟩ := h.serves
  obtain ⟨d, host, hopen, hwilling⟩ := open?_of_willing h.willing vif
  have hm := hi.bindVif_eq hopen address
  have hrefused : ((a.source.map (·.device)).toList.foldl Host.release host).refused = [] := by
    cases a.source <;> exact hwilling
  have hplain := h.toLoading.modifyInterface i.id
    (f := fun i => { i with binding := .virtual vif i.binding.devices }) fun _ => ⟨rfl, rfl, rfl⟩
  exact ⟨_, hm, hplain.of_roster ⟨⟨rfl, rfl, rfl⟩, Stations.replace_owners _ _⟩
    (hrefused.trans h.willing.symm)⟩

end Fitted

/-- A new interface is backed with its devices. -/
theorem Loading.setDevices (h : Loading links names n) (hl : LinkNames links) (hn : name ∉ names)
    (hd : devices ≠ []) :
    ∃ m, n.setDevices name devices = (.ok (), m) ∧
      Fitted links (names ++ [name]) name Calm m := by
  obtain ⟨hk, i, b, hi, hid, hcalm, helements⟩ := h.addInterface hl hn
  let f : Interface → Interface := fun i => { i with binding := i.binding.withDevices devices }
  obtain ⟨hok, hrefused, elements, hb⟩ := attachMissing_attached (a := b) hk.willing devices
  have hm := setDevices_eq hd hid.symm hi helements
  rw [hok] at hm
  refine ⟨_, hm, .put (f := f) (b := (Node.attachMissing b (n.addInterface name).2.host devices).2.1) ?_ hi rfl
    (fun _ => rfl) ?_ ?_⟩
  · exact (hk.modifyInterface i.id (f := f) fun _ => ⟨rfl, rfl, rfl⟩).of_roster
      ⟨⟨rfl, rfl, rfl⟩, Stations.replace_owners _ _⟩ (hrefused.trans hk.willing.symm)
  · rw [hi.station?_replace (by rw [hb]) rfl, if_pos rfl]
  · rw [hb]
    exact hcalm

/-! ## Entries -/

/-- The rate and the software interface come last. -/
theorem applyInterface_end_loads (he : e.Loadable)
    (hnow : now < Instant.secondsBound * Duration.perSecond) :
    Reaches (Fitted links names e.name Calm) (do
      setRate e.name e.rate.toFloat now
      match e.vif with
      | none => pure ()
      | some vif =>
        match e.vifAddress with
        | none => throw (.invalid s!"{e.name}: vif {vif} needs vif_address")
        | some text =>
          let address ← (linkAddress text : Except ConfigError LinkAddress)
          step (·.bindVif e.name vif address)) fun _ => Loading links names := by
  refine reaches_bind (Q := fun _ => Fitted links names e.name fun _ => True)
    (reaches_setRate fun n hn => hn.setRate e.rate.toFloat hnow) fun _ => ?_
  cases hv : e.vif with
  | none => exact reaches_pure fun _ hn => hn.toLoading
  | some vif =>
    obtain ⟨text, address, ha, hread⟩ := he vif hv
    rw [ha]
    have hok : linkAddress text = .ok address := by
      unfold linkAddress
      rw [hread]
    refine reaches_bind (reaches_lift hok) fun b => reaches_of_fact fun _ => ?_
    refine reaches_step fun n hn => ?_
    obtain ⟨m, hm, hloaded⟩ := hn.bindVif vif b
    exact ⟨(), m, hm, hloaded⟩

theorem applyInterface_loads (hl : LinkNames links) (he : e.Loadable) (hn : e.name ∉ names)
    (hnow : now < Instant.secondsBound * Duration.perSecond) :
    Reaches (Loading links names) (applyInterface e now) fun _ =>
      Loading links (names ++ [e.name]) := by
  have hkeeps : ∀ {f : Node → Except NodeError Node},
      (∀ n, Fitted links (names ++ [e.name]) e.name Calm n →
        ∃ m, f n = .ok m ∧ Fitted links (names ++ [e.name]) e.name Calm m) →
      Reaches (Fitted links (names ++ [e.name]) e.name Calm) (change f) fun _ =>
        Fitted links (names ++ [e.name]) e.name Calm :=
    fun hf => reaches_change hf
  unfold applyInterface
  refine reaches_bind (Q := fun _ => Fitted links (names ++ [e.name]) e.name Calm)
    (reaches_step fun n h => ?_) fun _ => ?_
  · obtain ⟨m, hm, hfitted⟩ := h.setDevices hl hn e.deviceList_ne_nil
    exact ⟨(), m, hm, hfitted⟩
  refine reaches_bind (hkeeps fun n h => h.station fun _ => ⟨rfl, id⟩) fun _ => ?_
  refine reaches_bind (hkeeps fun n h => h.station fun _ => ⟨rfl, id⟩) fun _ => ?_
  refine reaches_bind (hkeeps fun n h => h.modifyFlags e.flags) fun _ => ?_
  refine reaches_bind (reaches_forM
    (I := fun _ => Fitted links (names ++ [e.name]) e.name Calm)
    fun _ a _ _ => hkeeps fun n h => h.addAddress a) fun _ => ?_
  cases e.queue with
  | none => exact applyInterface_end_loads he hnow
  | some depth =>
    exact reaches_bind (hkeeps fun n h => h.setQueueDepth (.ofConfig depth)) fun _ =>
      applyInterface_end_loads he hnow

/-- Entries of distinct names are applied one after another. -/
theorem applyInterfaces_loads {es : List InterfaceEntry} (hl : LinkNames links)
    (he : ∀ e ∈ es, e.Loadable) (hn : (es.map (·.name)).Nodup)
    (hnow : now < Instant.secondsBound * Duration.perSecond) :
    Reaches (Loading links []) (es.forM (applyInterface · now)) fun _ =>
      Loading links (es.map (·.name)) := by
  refine reaches_forM (I := fun done : List InterfaceEntry => Loading links (done.map (·.name)))
    fun done e rest hsplit => ?_
  have hmem : e ∈ es := hsplit ▸ List.mem_append_right _ List.mem_cons_self
  have hnew : e.name ∉ done.map (·.name) := by
    rw [hsplit, List.map_append, List.map_cons] at hn
    exact fun hin => List.disjoint_of_nodup_append hn hin List.mem_cons_self
  rw [List.map_append]
  exact applyInterface_loads hl (he e hmem) hnew hnow

/-- A new node is ready to be loaded. -/
theorem start_loading (settings : NodeSettings) (hl : LinkNames links) :
    Loading links [] (Node.start settings links) where
  applied := applied_start settings hl
  aligned := Node.setLinks_aligned (Node.new_aligned settings) links
  willing := rfl
  named x y hx := by cases hx

end Config
end MulticastRelay
