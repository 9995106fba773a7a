import MulticastRelay.Proofs.Config.Saved
import MulticastRelay.Proofs.Node.InStep

/-! # What a capture reads

The entry of an interface is read off the interface and its adapter. An operation is described by what
it does to the entries; opening devices, passes over groups and the alignment of capture do nothing to
them.
-/
namespace MulticastRelay

namespace Keyed

variable {α β κ : Type} [DecidableEq κ] {key : α → κ} {xs ys : List α} {f g : α → β}

/-- Lists with the same distinct keys have the same image if the entries under each key do. -/
theorem map_eq_map (hn : (xs.map key).Nodup) (hk : ys.map key = xs.map key)
    (h : ∀ a ∈ xs, ∃ b, get? key (key a) ys = some b ∧ g b = f a) : ys.map g = xs.map f := by
  have hlen : ys.length = xs.length := by
    have := congrArg List.length hk
    rwa [List.length_map, List.length_map] at this
  refine List.ext_getElem (by simpa using hlen) fun i hy hx => ?_
  simp only [List.length_map] at hy hx
  have hkey : key ys[i] = key xs[i] := by
    have hi := congrArg (·[i]?) hk
    simpa [hy, hx] using hi
  obtain ⟨b, hb, hgb⟩ := h xs[i] (List.getElem_mem hx)
  rw [(get?_eq_some_iff (hk ▸ hn)).2 ⟨List.getElem_mem hy, hkey⟩] at hb
  cases hb
  simpa using hgb

end Keyed

namespace Config

open MulticastRelay.Topology

/-- What a capture reads off an interface. -/
def entryOf (i : Interface) : InterfaceEntry :=
  { name := i.name
    device := (deviceFields i.name i.binding.devices).1
    devices := (deviceFields i.name i.binding.devices).2
    vif := i.binding.vif?
    addresses := i.addresses
    reliable := i.flags.reliable
    layered := i.flags.layered
    blockIGMP := i.flags.blockIGMP
    divertOutput := i.flags.divertOutput }

/-- What it reads off the adapter besides. -/
def InterfaceEntry.withStation (defaultQueue : QueueDepth) (a : Station) (e : InterfaceEntry) :
    InterfaceEntry :=
  { e with
    policy := a.composite.policy
    shadow := a.shadow
    rate := .ofFloat a.rate.toBytesPerSecond
    queue := if a.queue.depth = defaultQueue then none else some a.queue.depth.toConfig
    vifAddress := a.vif.map (·.address.render) }

variable {n m k : Node} {i : Interface} {a b : Station} {x : InterfaceId} {name : String}

theorem captureInterface_eq (h : n.station? i.id = some a) :
    captureInterface n i = (entryOf i).withStation n.settings.defaultQueue a := by
  unfold captureInterface
  dsimp only
  rw [h]
  rfl

theorem captureInterface_name (n : Node) (i : Interface) : (captureInterface n i).name = i.name := by
  unfold captureInterface
  dsimp only
  split <;> rfl

/-! ## Interfaces and their adapters -/

theorem interfaceNamed?_mem (hi : n.topology.interfaceNamed? name = some i) :
    i ∈ n.topology.interfaces := by
  obtain ⟨id, -, hi⟩ := Option.bind_eq_some_iff.1 hi
  exact (Keyed.get?_mem hi).1

theorem interfaceNamed?_modifyInterface {t : Topology} {f : Interface → Interface}
    (hi : t.interfaceNamed? name = some i) (hf : ∀ j, (f j).id = j.id) :
    (t.modifyInterface i.id f).interfaceNamed? name = some (f i) := by
  obtain ⟨x, hx, hi⟩ := Option.bind_eq_some_iff.1 hi
  refine Option.bind_eq_some_iff.2 ⟨x, hx, ?_⟩
  rw [interface?_modifyInterface fun j hj => (hf j).trans hj, (Keyed.get?_mem hi).2, if_pos rfl, hi]
  rfl

section Aligned

variable (h : n.Aligned [])

include h

theorem exists_station (hi : n.topology.interface? x = some i) : ∃ a, n.station? x = some a := by
  have hm := (h.manned x (has_iff.2 ⟨i, hi⟩)).resolve_right List.not_mem_nil
  exact Option.isSome_iff_exists.1 (Node.mans_iff.1 hm)

/-- Interfaces of one name are one. -/
theorem interface_of_name {j : Interface} (hi : n.topology.interfaceNamed? name = some i)
    (hj : j ∈ n.topology.interfaces) (hn : j.name = name) : j = i := by
  have hfound : n.topology.interface? j.id = some j := h.intact.interface?_eq.2 ⟨hj, rfl⟩
  have hheld := (h.named name j.id).2 (hn ▸ congrArg (Option.map Interface.name) hfound)
  unfold interfaceNamed? at hi
  rw [hheld] at hi
  exact Option.some.inj (hfound.symm.trans hi)

theorem interfaceNamed?_name (hi : n.topology.interfaceNamed? name = some i) : i.name = name := by
  obtain ⟨id, hid, hi⟩ := Option.bind_eq_some_iff.1 hi
  have hn := (h.named name id).1 hid
  rw [nameOf?, hi] at hn
  exact Option.some.inj hn

theorem interface?_of_name (hi : n.topology.interfaceNamed? name = some i) :
    n.topology.interface? i.id = some i :=
  h.intact.interface?_eq.2 ⟨interfaceNamed?_mem hi, rfl⟩

theorem exists_interfaceNamed (hi : i ∈ n.topology.interfaces) :
    n.topology.interfaceNamed? i.name = some i := by
  have hfound : n.topology.interface? i.id = some i := h.intact.interface?_eq.2 ⟨hi, rfl⟩
  have hheld := (h.named i.name i.id).2 (congrArg (Option.map Interface.name) hfound)
  exact Option.bind_eq_some_iff.2 ⟨i.id, hheld, hfound⟩

end Aligned

/-! ## Operations seen through a capture -/

/-- From `n` to `m` the entries change as `G` says, and nothing that later operations need is lost. -/
structure Redresses (n m : Node) (G : InterfaceEntry → InterfaceEntry) : Prop where
  settings : m.settings = n.settings
  links : m.links = n.links
  refused : m.host.refused = n.host.refused
  lastSynthetic : m.lastSynthetic = n.lastSynthetic
  groups : m.topology.groups = n.topology.groups
  matchers : m.topology.matchers = n.topology.matchers
  ids : m.topology.interfaces.map Interface.id = n.topology.interfaces.map Interface.id
  captured : ∀ i ∈ n.topology.interfaces, ∃ j, m.topology.interface? i.id = some j ∧
    captureInterface m j = G (captureInterface n i)

theorem Redresses.entries {G : InterfaceEntry → InterfaceEntry} (h : Redresses n m G)
    (hn : n.Aligned []) :
    m.topology.interfaces.map (captureInterface m) =
      (n.topology.interfaces.map (captureInterface n)).map G := by
  rw [List.map_map]
  exact Keyed.map_eq_map hn.intact.ids h.ids h.captured

/-- Changes the entry of one name. -/
def onName (name : String) (g : InterfaceEntry → InterfaceEntry) (e : InterfaceEntry) :
    InterfaceEntry :=
  if e.name = name then g e else e

theorem map_onName {e : InterfaceEntry} {es : List InterfaceEntry}
    (g : InterfaceEntry → InterfaceEntry) (h : e.name ∉ es.map (·.name)) :
    (es ++ [e]).map (onName e.name g) = es ++ [g e] := by
  have hes : es.map (onName e.name g) = es := by
    refine (List.map_congr_left fun k hk => ?_).trans (List.map_id es)
    have hne : k.name ≠ e.name := fun hn => h (hn ▸ List.mem_map_of_mem (f := (·.name)) hk)
    exact if_neg hne
  rw [List.map_append, hes]
  exact congrArg (es ++ [·]) (if_pos rfl)

/-- One interface and its adapter change. -/
theorem Redresses.at {f : Interface → Interface} {g : InterfaceEntry → InterfaceEntry}
    (h : n.Aligned []) (hi : n.topology.interfaceNamed? name = some i) (ha : n.station? i.id = some a)
    (ht : m.topology = n.topology.modifyInterface i.id f)
    (hb : ∀ x, m.station? x = if x = i.id then some b else n.station? x)
    (hid : ∀ j, (f j).id = j.id)
    (hg : (entryOf (f i)).withStation n.settings.defaultQueue b =
      g ((entryOf i).withStation n.settings.defaultQueue a))
    (hs : m.settings = n.settings) (hl : m.links = n.links)
    (hr : m.host.refused = n.host.refused) (hy : m.lastSynthetic = n.lastSynthetic) :
    Redresses n m (onName name g) where
  settings := hs
  links := hl
  refused := hr
  lastSynthetic := hy
  groups := by rw [ht]; rfl
  matchers := by rw [ht]; rfl
  ids := by
    rw [ht]
    exact Keyed.map_key_modify fun j hj => (hid j).trans hj
  captured j hj := by
    have hfound : n.topology.interface? j.id = some j := h.intact.interface?_eq.2 ⟨hj, rfl⟩
    rw [ht, interface?_modifyInterface fun l hl => (hid l).trans hl]
    unfold onName
    rw [captureInterface_name]
    by_cases hn : j.name = name
    · obtain rfl := interface_of_name h hi hj hn
      refine ⟨f j, by rw [if_pos rfl, hfound]; rfl, ?_⟩
      have hst : m.station? (f j).id = some b := by rw [hb, hid, if_pos rfl]
      rw [if_pos hn, captureInterface_eq hst, captureInterface_eq ha, hs, hg]
    · have hne : j.id ≠ i.id := fun he => by
        rw [he, interface?_of_name h hi] at hfound
        cases hfound
        exact hn (interfaceNamed?_name h hi)
      obtain ⟨c, hc⟩ := exists_station h hfound
      have hst : m.station? j.id = some c := by rw [hb, if_neg hne, hc]
      refine ⟨j, by rw [if_neg hne, hfound], ?_⟩
      rw [if_neg hn, captureInterface_eq hst, captureInterface_eq hc, hs]

/-- Interfaces and adapters change in nothing that a capture reads. -/
theorem Redresses.of_same (h : n.Aligned [])
    (hs : m.settings = n.settings) (hl : m.links = n.links)
    (hr : m.host.refused = n.host.refused) (hy : m.lastSynthetic = n.lastSynthetic)
    (hg : m.topology.groups = n.topology.groups) (hm : m.topology.matchers = n.topology.matchers)
    (hids : m.topology.interfaces.map Interface.id = n.topology.interfaces.map Interface.id)
    (hi : ∀ x, (m.topology.interface? x).map entryOf = (n.topology.interface? x).map entryOf)
    (ha : ∀ x (e : InterfaceEntry), (m.station? x).map (e.withStation n.settings.defaultQueue ·) =
      (n.station? x).map (e.withStation n.settings.defaultQueue ·)) : Redresses n m id where
  settings := hs
  links := hl
  refused := hr
  lastSynthetic := hy
  groups := hg
  matchers := hm
  ids := hids
  captured i hmem := by
    have hfound : n.topology.interface? i.id = some i := h.intact.interface?_eq.2 ⟨hmem, rfl⟩
    have hm := hi i.id
    rw [hfound] at hm
    obtain ⟨j, hj, he⟩ := Option.map_eq_some_iff.1 hm
    obtain ⟨a, hsa⟩ := exists_station h hfound
    have hb := ha i.id (entryOf i)
    rw [hsa] at hb
    obtain ⟨b, hsb, hbe⟩ := Option.map_eq_some_iff.1 hb
    refine ⟨j, hj, ?_⟩
    have hjid := (Keyed.get?_mem hj).2
    rw [captureInterface_eq (hjid ▸ hsb), captureInterface_eq hsa, hs, he, hbe]
    rfl

/-! ## Devices that open -/

/-- Devices were opened and attached to an adapter, and none was refused. -/
structure Attached (a : Station) (r : Except NodeError Unit × Station × Host) : Prop where
  ok : r.1 = .ok ()
  refused : r.2.2.refused = []
  station : ∃ elements, r.2.1 = { a with composite := { a.composite with elements } }

theorem open?_of_willing {host : Host} (h : host.refused = []) (device : String) :
    ∃ d host', host.open? device = .ok (d, host') ∧ host'.refused = [] := by
  unfold Host.open?
  rw [if_neg (by simp [h])]
  exact ⟨_, _, rfl, h⟩

theorem Attached.more {e : Element} {r : Except NodeError Unit × Station × Host}
    (h : Attached (a.addElement e) r) : Attached a r :=
  ⟨h.ok, h.refused, h.station⟩

theorem attachAll_attached {host : Host} (h : host.refused = []) (devices : List String) :
    Attached a (Node.attachAll a host devices) := by
  induction devices generalizing a host with
  | nil => exact ⟨rfl, h, a.elements, rfl⟩
  | cons device rest ih =>
    obtain ⟨d, host', hopen, hr⟩ := open?_of_willing h device
    unfold Node.attachAll
    rw [hopen]
    exact (ih hr).more

theorem attachMissing_attached {host : Host} (h : host.refused = []) (devices : List String) :
    Attached a (Node.attachMissing a host devices) := by
  induction devices generalizing a host with
  | nil => exact ⟨rfl, h, a.elements, rfl⟩
  | cons device rest ih =>
    obtain ⟨d, host', hopen, hr⟩ := open?_of_willing h device
    unfold Node.attachMissing
    rw [hopen]
    split
    · exact ih h
    · exact (ih hr).more

/-! ## Operations that a capture does not see -/

theorem Redresses.nameOf? (hm : Redresses n m id) (x : InterfaceId) :
    m.topology.nameOf? x = n.topology.nameOf? x := by
  cases hi : n.topology.interface? x with
  | none =>
    have hx : x ∉ m.topology.interfaces.map Interface.id :=
      hm.ids ▸ Keyed.get?_eq_none_iff.1 hi
    have hj : m.topology.interface? x = none := Keyed.get?_eq_none_iff.2 hx
    unfold Topology.nameOf?
    rw [hi, hj]
  | some i =>
    obtain ⟨hmem, rfl⟩ := Keyed.get?_mem hi
    obtain ⟨j, hj, hc⟩ := hm.captured i hmem
    have hname : j.name = i.name := by
      rw [← captureInterface_name m j, hc]
      exact captureInterface_name n i
    unfold Topology.nameOf?
    rw [hi, hj]
    exact congrArg some hname

section Unseen

variable (h : n.Aligned [])

include h

theorem Redresses.refl : Redresses n n id :=
  .of_same h rfl rfl rfl rfl rfl rfl rfl (fun _ => rfl) fun _ _ => rfl

/-- The interface of a name is found, not made. -/
theorem Redresses.addInterface (hi : n.topology.interfaceNamed? name = some i) :
    (n.addInterface name).1 = i.id ∧ Redresses n (n.addInterface name).2 id := by
  have hname := interfaceNamed?_name h hi
  have hfound := interface?_of_name h hi
  obtain ⟨a, ha⟩ := exists_station h hfound
  have hindex : n.indexFor name = (i.id, n) := by
    unfold Node.indexFor
    rw [hi]
  let f : Interface → Interface := fun i => { i with name }
  have hadd : ∃ names, n.topology.addInterface i.id name =
      { n.topology.modifyInterface i.id f with names } := by
    unfold Topology.addInterface
    rw [hfound]
    exact ⟨_, rfl⟩
  obtain ⟨names, hadd⟩ := hadd
  have hk : n.addInterface name =
      (i.id, { n with topology := { n.topology.modifyInterface i.id f with names } }) := by
    unfold Node.addInterface
    rw [hindex]
    dsimp only
    rw [hadd]
    unfold Node.ensureStation
    exact congrArg (Prod.mk i.id) (if_pos (Option.isSome_iff_exists.2 ⟨a, ha⟩))
  rw [hk]
  refine ⟨rfl, .of_same h rfl rfl rfl rfl rfl rfl ?_ (fun x => ?_) fun _ _ => rfl⟩
  · exact Keyed.map_key_modify fun _ hj => hj
  · have hx : (n.topology.modifyInterface i.id f).interface? x =
        if x = i.id then (n.topology.interface? i.id).map f else n.topology.interface? x :=
      interface?_modifyInterface fun _ hj => hj
    refine (congrArg (Option.map entryOf) hx).trans ?_
    by_cases he : x = i.id
    · rw [if_pos he, he, hfound]
      have hsame : f i = i := by
        subst hname
        rfl
      exact congrArg (fun k => some (entryOf k)) hsame
    · rw [if_neg he]

theorem Redresses.openDevices (hw : n.host.refused = []) (x : InterfaceId) :
    (n.openDevices x).1 = .ok () ∧ Redresses n (n.openDevices x).2 id := by
  unfold Node.openDevices
  cases hi : n.topology.interface? x with
  | none => exact ⟨rfl, .refl h⟩
  | some i =>
    obtain ⟨a, ha⟩ := exists_station h hi
    have hens : n.ensureStation x i.name = n := if_pos (Option.isSome_iff_exists.2 ⟨a, ha⟩)
    dsimp only
    rw [hens, ha]
    dsimp only
    split
    · exact ⟨rfl, .refl h⟩
    · obtain ⟨hok, hr, elements, he⟩ := attachAll_attached (a := a) hw i.binding.devices
      rw [he]
      refine ⟨hok, .of_same h rfl rfl (hr.trans hw.symm) rfl rfl rfl rfl (fun _ => rfl) fun y e => ?_⟩
      have howner := Stations.get?_owner ha
      have hrep := Stations.get?_replace (x := y)
        (b := { a with composite := { a.composite with elements } }) (howner.symm ▸ ha)
      refine (congrArg (Option.map _) hrep).trans ?_
      by_cases hy : y = a.owner
      · rw [if_pos hy, hy, howner, ha]
        rfl
      · rw [if_neg hy]
        rfl

theorem Redresses.syncCapture : Redresses n n.syncCapture id := by
  have halign : ∃ f : Station → Station,
      (∀ a, (f a).owner = a.owner ∧ ∀ q e, InterfaceEntry.withStation q (f a) e = e.withStation q a) ∧
      n.syncCapture.stations.adapters = n.stations.adapters.map f := by
    refine ⟨_, ?_, rfl⟩
    exact fun a => ⟨rfl, fun _ _ => rfl⟩
  obtain ⟨f, hf, hm⟩ := halign
  refine .of_same h rfl rfl rfl rfl rfl rfl rfl (fun _ => rfl) fun x e => ?_
  have hx : n.syncCapture.station? x = (n.station? x).map f := by
    unfold Node.station? Stations.get?
    rw [hm, Keyed.get?_map fun a => (hf a).1]
  rw [hx, Option.map_map]
  exact congrArg (fun g => (n.station? x).map g) (funext fun a => (hf a).2 _ e)

theorem Redresses.associate (gid : GroupId) :
    Redresses n { n with topology := (n.topology.associate gid).2 } id := by
  obtain ⟨is, hframe⟩ := associate_frame (t := n.topology) gid
  refine .of_same h rfl rfl rfl rfl (by rw [hframe]) (by rw [hframe]) (associate_ids gid)
    (fun x => ?_) fun _ _ => rfl
  have hbare := congrArg (Option.map entryOf) (h.intact.bare_associate (x := x) gid)
  rwa [Option.map_map, Option.map_map] at hbare

end Unseen

end Config
end MulticastRelay
