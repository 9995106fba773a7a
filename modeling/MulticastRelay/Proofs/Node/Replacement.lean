import MulticastRelay.Proofs.Node.Backing

/-! # Devices replaced

An interface that is backed with a list of devices ends up with exactly these, if all that are new can
be opened. Elements that stay are left alone, whatever the adapter waits for and has queued.
-/
namespace MulticastRelay

theorem eraseDups_nodup {α : Type} [DecidableEq α] : ∀ xs : List α, xs.eraseDups.Nodup
  | [] => List.nodup_nil
  | x :: xs => by
    rw [List.eraseDups_cons]
    refine List.nodup_cons.2 ⟨fun hx => ?_, eraseDups_nodup _⟩
    have hx := List.mem_eraseDups.1 hx
    simp at hx
termination_by xs => xs.length
decreasing_by exact Nat.lt_succ_of_le (List.length_filter_le _ _)

namespace Adapter

variable {σ : Type} {a : Adapter σ} {devices : List String} {host : Host} {d : String}

theorem mem_retained_names :
    d ∈ (a.retained devices).map Element.name ↔ d ∈ devices ∧ d ∈ a.elements.map Element.name := by
  simp only [retained, List.mem_map, List.mem_filter, decide_eq_true_eq]
  constructor
  · rintro ⟨e, ⟨he, hd⟩, rfl⟩
    exact ⟨hd, e, he, rfl⟩
  · rintro ⟨hd, e, he, rfl⟩
    exact ⟨e, ⟨he, hd⟩, rfl⟩

/-- The names after all that was missing could be opened. -/
theorem backed_names (ho : host.openable (a.missing devices) = a.missing devices) :
    (a.backed devices host).elements.map Element.name =
      (a.retained devices).map Element.name ++ a.missing devices := by
  have hnames := (a.keeping (a.retained devices)).attaching_names (a.missing devices) host
  rwa [ho] at hnames

theorem backed_names_nodup (ho : host.openable (a.missing devices) = a.missing devices)
    (hn : (a.elements.map Element.name).Nodup) :
    ((a.backed devices host).elements.map Element.name).Nodup := by
  rw [backed_names ho, List.nodup_append]
  refine ⟨hn.sublist (List.filter_sublist.map _), eraseDups_nodup _, ?_⟩
  rintro d hr _ hm rfl
  exact (mem_missing.1 hm).2 (mem_retained_names.1 hr).2

theorem mem_backed_names (ho : host.openable (a.missing devices) = a.missing devices) :
    d ∈ (a.backed devices host).elements.map Element.name ↔ d ∈ devices := by
  rw [backed_names ho, List.mem_append, mem_retained_names, mem_missing]
  tauto

end Adapter

namespace Node

variable {n : Node} {name : String} {devices : List String}

/-- The adapter `a` is `b` in a node `m` once its interface was backed with a list of devices. -/
structure Rebacked (n m : Node) (name : String) (devices : List String) (a b : Station) : Prop where
  station : m.stationNamed? name = .ok b
  distinct : (b.elements.map Element.name).Nodup
  listed : ∀ d, d ∈ b.elements.map Element.name ↔ d ∈ devices
  /-- Elements of listed devices stay as they were, and new ones follow. -/
  elements : b.elements = a.retained devices ++
    Element.opened a.outputPending n.host.opened (a.missing devices)
  /-- Each new device was opened once. -/
  opened : m.host.opened = n.host.opened + (a.missing devices).length
  /-- A new element waits for room exactly if the adapter does, and its channel knows. -/
  numbered : (Element.opened a.outputPending n.host.opened (a.missing devices)).map
    (·.device.serial) = List.range' n.host.opened (a.missing devices).length
  registered : ∀ e ∈ Element.opened a.outputPending n.host.opened (a.missing devices),
    e.interest.output = a.outputPending ∧ e.device.watching = e.interest
  /-- What is no longer listed was closed, and nothing else. -/
  released : m.host.released = n.host.released ++ (a.stale devices).map Element.parting
  closed : ∀ e ∈ a.stale devices, e.parting.isClosed = true
  cursor : b.composite.cursor =
    if a.composite.cursor < (a.retained devices).length then a.composite.cursor else 0
  /-- Queue, rate, timer and whatever else an adapter has are the same. -/
  rest : b = { a with composite :=
    { a.composite with elements := b.elements, cursor := b.composite.cursor } }
  others : ∀ x, x ≠ a.owner → m.station? x = n.station? x

/-- The interface answers to its name, with the adapter at its index. -/
theorem Backs.stationNamed {m : Node} (h : Reachable n) (hb : Backs n name devices m)
    (hm : m.Aligned []) :
    m.stationNamed? name = .ok ((n.stationFor name).backed devices n.host) := by
  let x := (n.indexFor name).1
  have hadded : (n.topology.addInterface x name).nameOf? x = some name := by
    rw [(reachable_aligned h).intact.nameOf?_addInterface, if_pos rfl]
  have hnamed : m.topology.nameOf? x = some name := by
    have hfound : ((n.topology.addInterface x name).modifyInterface x fun i =>
        { i with binding := i.binding.withDevices devices }).interface? x = _ :=
      Topology.interface?_modifyInterface fun _ hi => hi
    rw [if_pos rfl, ← hb.topology] at hfound
    unfold Topology.nameOf? at hadded ⊢
    rw [hfound, Option.map_map]
    exact hadded
  obtain ⟨i, hi, hid, -⟩ := hm.named.interface?_of_holder ((hm.named name x).2 hnamed)
  have hstation := hb.stations x
  rw [if_pos rfl] at hstation
  rw [← hid] at hstation
  have hknown : m.interfaceId? name = .ok i.id := by
    unfold interfaceId?
    rw [hi]
  unfold stationNamed?
  rw [hknown]
  dsimp only [bind, Except.bind]
  rw [hstation]

/-- A list of devices of which the new ones can be opened becomes what backs the interface: names are
met once, in the order of the list, and kept devices are neither closed nor opened again. -/
theorem setDevices_realises (h : Reachable n) (hd : devices ≠ [])
    (hn : ((n.stationFor name).elements.map Element.name).Nodup)
    (ho : ∀ d ∈ (n.stationFor name).missing devices, d ∉ n.host.refused) :
    (n.setDevices name devices).1 = .ok () ∧
      ∃ b, Rebacked n (n.setDevices name devices).2 name devices (n.stationFor name) b := by
  let a := n.stationFor name
  obtain ⟨hok, hall⟩ := Host.opening_ok ho
  obtain ⟨hresult, hb⟩ := setDevices_backs (reachable_upholds Element.lasting_trivial h) name hd
  have helements : (a.backed devices n.host).elements = a.retained devices ++
      Element.opened a.outputPending n.host.opened (a.missing devices) := by
    show a.retained devices ++ Element.opened _ _ (n.host.openable (a.missing devices)) = _
    rw [hall]
    rfl
  refine ⟨hresult.trans hok, a.backed devices n.host, ?_⟩
  exact {
    station := hb.stationNamed h (setDevices_aligned (reachable_aligned h) name devices)
    distinct := Adapter.backed_names_nodup hall hn
    listed := fun _ => Adapter.mem_backed_names hall
    elements := helements
    opened := by rw [hb.host, hall]
    numbered := Element.opened_serials _ _ _
    registered := Element.opened_registered _ _ _
    released := by rw [hb.host]
    closed := fun e _ => e.parting_isClosed
    cursor := RoundRobin.start_eq _ _
    rest := rfl
    others := fun x hx => (hb.stations x).trans (if_neg (n.stationFor_owner name ▸ hx)) }

/-- While an adapter waits for room one device leaves, one stays and one comes, though listed twice. -/
theorem blocked_adapter_rebacked : ∃ (n : Node) (b : Station), Reachable n ∧
    (n.stationFor "wan").outputPending = true ∧
    (n.stationFor "wan").elements.map Element.name = ["d0", "d1"] ∧
    (n.stationFor "wan").missing ["d1", "d2", "d1", "d2"] = ["d2"] ∧
    (n.setDevices "wan" ["d1", "d2", "d1", "d2"]).1 = .ok () ∧
    Rebacked n (n.setDevices "wan" ["d1", "d2", "d1", "d2"]).2 "wan" ["d1", "d2", "d1", "d2"]
      (n.stationFor "wan") b := by
  have fresh : Reachable (new { poolSize := 4, frameSize := 64 }) := .new _
  have backed := fresh.next (.setDevices "wan" ["d0", "d1"]) rfl
  have full := backed.next (.channels fun d => { d with otherwise := .block }) rfl
  have waiting := full.next (.forward [⟨syntheticBase + 1⟩] [1, 2, 3] 0) rfl
  obtain ⟨hok, b, hb⟩ := @setDevices_realises _ "wan" ["d1", "d2", "d1", "d2"] waiting (by decide)
    (by decide +kernel) (by decide +kernel)
  exact ⟨_, b, waiting, by decide +kernel, by decide +kernel, by decide +kernel, hok, hb⟩

end Node
end MulticastRelay
