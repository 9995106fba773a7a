import Mathlib.Data.List.TakeWhile
import MulticastRelay.Proofs.Node.InStep
import MulticastRelay.Proofs.Node.Lasting

/-! # Devices behind an interface

Devices are detached and opened one at a time, and the names of elements are looked up anew for each.
As a whole, the elements no longer listed leave in their order, and of the devices that are listed but
not attached each is opened once, in the order of the list, up to the first that is refused.
-/
namespace MulticastRelay

namespace Host

/-- The devices of a list before the first that cannot be opened. -/
def openable (h : Host) (names : List String) : List String := names.takeWhile (· ∉ h.refused)

/-- How opening the devices of a list ends. -/
def opening (h : Host) (names : List String) : Except NodeError Unit :=
  match names.find? (· ∈ h.refused) with
  | some d => .error (.transport (.invalidDevice d))
  | none => .ok ()

variable {h : Host} {name : String} {names : List String}

theorem open?_refused (hr : name ∈ h.refused) : h.open? name = .error (.invalidDevice name) :=
  if_pos (by simpa using hr)

theorem open?_willing (hr : name ∉ h.refused) :
    h.open? name = .ok ({ name, serial := h.opened }, { h with opened := h.opened + 1 }) :=
  if_neg (by simpa using hr)

theorem opening_ok (hw : ∀ d ∈ names, d ∉ h.refused) :
    h.opening names = .ok () ∧ h.openable names = names := by
  have hnone : names.find? (· ∈ h.refused) = none :=
    List.find?_eq_none.2 fun d hd => by simpa using hw d hd
  have hall : h.openable names = names :=
    List.takeWhile_eq_self_iff.2 fun d hd => by simpa using hw d hd
  refine ⟨?_, hall⟩
  unfold opening
  rw [hnone]

/-- Where a device is refused, nothing opens exactly if it is the first. -/
theorem openable_eq_nil {e : NodeError} (he : h.opening names = .error e) :
    h.openable names = [] ↔ ∃ d, names.head? = some d ∧ d ∈ h.refused := by
  unfold openable
  cases names with
  | nil => cases he
  | cons d rest => simp [List.takeWhile_cons]

end Host

namespace Element

/-- The elements of devices that are opened one after another, the first under the given number. -/
def opened (waiting : Bool) (serial : Nat) (names : List String) : List Element :=
  (names.zipIdx serial).map fun d =>
    (new { name := d.1, serial := d.2 }).startInput.setOutput waiting

/-- The device of an element that is detached and closed. -/
def parting (e : Element) : Device := e.stopOutput.close.device

theorem opened_cons (waiting : Bool) (serial : Nat) (name : String) (names : List String) :
    opened waiting serial (name :: names) =
      (new { name, serial }).startInput.setOutput waiting :: opened waiting (serial + 1) names := rfl

@[simp] theorem opened_names (waiting : Bool) (serial : Nat) (names : List String) :
    (opened waiting serial names).map name = names := by
  have hname : ∀ d : String × Nat,
      ((new { name := d.1, serial := d.2 }).startInput.setOutput waiting).name = d.1 := by
    intro d
    cases waiting <;> rfl
  unfold opened
  rw [List.map_map, Function.comp_def]
  simp only [hname]
  exact List.zipIdx_map_fst serial names

theorem opened_serials (waiting : Bool) (serial : Nat) (names : List String) :
    (opened waiting serial names).map (·.device.serial) = List.range' serial names.length := by
  have hserial : ∀ d : String × Nat,
      ((new { name := d.1, serial := d.2 }).startInput.setOutput waiting).device.serial = d.2 := by
    intro d
    cases waiting <;> rfl
  unfold opened
  rw [List.map_map, Function.comp_def]
  simp only [hserial]
  exact List.zipIdx_map_snd serial names

/-- A new element waits for room exactly if the adapter does, and its channel knows. -/
theorem opened_registered (waiting : Bool) (serial : Nat) (names : List String) :
    ∀ e ∈ opened waiting serial names,
      e.interest.output = waiting ∧ e.device.watching = e.interest := by
  intro e he
  obtain ⟨d, -, rfl⟩ := List.mem_map.1 he
  cases waiting <;> exact ⟨rfl, rfl⟩

theorem parting_isClosed (e : Element) : e.parting.isClosed = true := rfl

end Element

namespace Adapter

variable {σ : Type} {a : Adapter σ} {devices : List String}

/-- The elements of listed devices. -/
def retained (a : Adapter σ) (devices : List String) : List Element :=
  a.elements.filter (·.name ∈ devices)

/-- The elements of devices no longer listed. -/
def stale (a : Adapter σ) (devices : List String) : List Element :=
  a.elements.filter (·.name ∉ devices)

/-- The listed devices that have no element, each once. -/
def missing (a : Adapter σ) (devices : List String) : List String :=
  (devices.filter (· ∉ a.elements.map Element.name)).eraseDups

theorem mem_missing {d : String} :
    d ∈ a.missing devices ↔ d ∈ devices ∧ d ∉ a.elements.map Element.name := by
  simp [missing]

theorem element?_isSome {name : String} :
    (a.element? name).isSome = true ↔ name ∈ a.elements.map Element.name := by
  simp [element?, Composite.element?, elements]

theorem addElement_names (a : Adapter σ) (d : Device) :
    (a.addElement (.new d)).elements.map Element.name = a.elements.map Element.name ++ [d.name] := by
  have hname : ((Element.new d).startInput.setOutput a.outputPending).name = d.name := by
    cases a.outputPending <;> rfl
  rw [addElement_new]
  unfold elements
  dsimp only
  rw [List.map_append, List.map_singleton, hname]

theorem missing_cons_of_attached {d : String} (h : d ∈ a.elements.map Element.name) :
    a.missing (d :: devices) = a.missing devices := by
  unfold missing
  rw [List.filter_cons_of_neg (by simpa using h)]

theorem missing_cons_of_new {d : Device} (h : d.name ∉ a.elements.map Element.name) :
    a.missing (d.name :: devices) = d.name :: (a.addElement (.new d)).missing devices := by
  unfold missing
  rw [List.filter_cons_of_pos (by simpa using h), List.eraseDups_cons, List.filter_filter,
    addElement_names]
  congr 3
  funext x
  simp only [List.mem_append, List.mem_singleton]
  by_cases hx : x = d.name <;> simp [hx]

end Adapter

namespace RoundRobin

variable {cursor len : Nat}

theorem clamp_of_within (h : cursor = 0 ∨ cursor < len) : clamp cursor len = cursor := by
  unfold clamp
  split <;> omega

theorem clamp_clamp {most : Nat} (h : len ≤ most) :
    clamp (clamp cursor most) len = clamp cursor len := by
  by_cases hm : most ≤ cursor
  · have hl : len ≤ cursor := h.trans hm
    unfold clamp
    rw [if_pos hm, if_pos hl, ite_self]
  · have hkept : clamp cursor most = cursor := if_neg hm
    rw [hkept]

end RoundRobin

namespace Adapter

variable {σ : Type} {a : Adapter σ} {es fewer : List Element}

/-- The adapter with some of its elements. The cursor stays, or goes back to the start if it is past
them. -/
def keeping (a : Adapter σ) (es : List Element) : Adapter σ :=
  { a with composite := { a.composite with
      elements := es, cursor := RoundRobin.clamp a.composite.cursor es.length } }

/-- The adapter once the devices of a list are attached, as far as they open. -/
def attaching (a : Adapter σ) (names : List String) (host : Host) : Adapter σ :=
  { a with composite.elements := a.elements ++
      Element.opened a.outputPending host.opened (host.openable names) }

/-- The adapter once it is backed with the devices of a list, as far as they open. -/
def backed (a : Adapter σ) (devices : List String) (host : Host) : Adapter σ :=
  (a.keeping (a.retained devices)).attaching (a.missing devices) host

theorem keeping_elements (h : a.composite.cursor = 0 ∨ a.composite.cursor < a.elements.length) :
    a.keeping a.elements = a := by
  unfold keeping
  rw [RoundRobin.clamp_of_within h]
  rfl

theorem attaching_names (a : Adapter σ) (names : List String) (host : Host) :
    (a.attaching names host).elements.map Element.name =
      a.elements.map Element.name ++ host.openable names := by
  show (a.elements ++ Element.opened _ _ _).map Element.name = _
  rw [List.map_append, Element.opened_names]

theorem attaching_of_openable_nil {names : List String} {host : Host}
    (h : host.openable names = []) : a.attaching names host = a := by
  unfold attaching
  rw [h]
  show { a with composite.elements := a.elements ++ [] } = a
  rw [List.append_nil]
  rfl

theorem keeping_keeping (h : fewer.length ≤ es.length) :
    (a.keeping es).keeping fewer = a.keeping fewer := by
  unfold keeping
  dsimp only
  rw [RoundRobin.clamp_clamp h]

/-- The first element of a name is taken out from behind elements of other names. -/
theorem removeElement_behind {e : Element} {pre rest : List Element}
    (he : a.elements = pre ++ e :: rest) (hpre : ∀ x ∈ pre, x.name ≠ e.name) :
    a.removeElement e.name = .ok (e.stopOutput, a.keeping (pre ++ rest)) := by
  replace he : a.composite.elements = pre ++ e :: rest := he
  have hnone : pre.find? (·.name == e.name) = none :=
    List.find?_eq_none.2 fun x hx => by simpa using hpre x hx
  have hfound : a.composite.element? e.name = some e := by
    unfold Composite.element?
    rw [he, List.find?_append, hnone, List.find?_cons_of_pos (by simp)]
    rfl
  have herased : a.composite.elements.eraseP (·.name == e.name) = pre ++ rest := by
    rw [he, List.eraseP_append_right _ fun x hx => by simpa using hpre x hx,
      List.eraseP_cons_of_pos (by simp)]
  unfold removeElement Composite.detach?
  rw [hfound]
  dsimp only
  rw [herased]
  rfl

end Adapter

namespace Node

variable {a : Station} {host : Host}

/-! ## Opening -/

/-- Devices are opened one after another, up to the first that is refused. -/
theorem attachAll_eq (a : Station) (host : Host) (names : List String) :
    attachAll a host names =
      (host.opening names, a.attaching names host,
        { host with opened := host.opened + (host.openable names).length }) := by
  induction names generalizing a host with
  | nil => exact Prod.ext rfl (Prod.ext (Adapter.attaching_of_openable_nil rfl).symm rfl)
  | cons name rest ih =>
    unfold attachAll
    by_cases hr : name ∈ host.refused
    · have hopening : host.opening (name :: rest) = .error (.transport (.invalidDevice name)) := by
        unfold Host.opening
        rw [List.find?_cons_of_pos (by simpa using hr)]
      have hopenable : host.openable (name :: rest) = [] :=
        List.takeWhile_cons_of_neg (by simpa using hr)
      rw [Host.open?_refused hr, hopening, hopenable, Adapter.attaching_of_openable_nil hopenable]
      rfl
    · have hopening : host.opening (name :: rest) = host.opening rest := by
        unfold Host.opening
        rw [List.find?_cons_of_neg (by simpa using hr)]
      have hopenable : host.openable (name :: rest) = name :: host.openable rest :=
        List.takeWhile_cons_of_pos (by simpa using hr)
      rw [Host.open?_willing hr, hopening, hopenable]
      dsimp only
      rw [ih, Adapter.addElement_new]
      refine Prod.ext rfl (Prod.ext ?_ ?_)
      · unfold Adapter.attaching Adapter.elements
        dsimp only
        rw [hopenable, List.append_assoc, Element.opened_cons]
        rfl
      · dsimp only
        rw [List.length_cons, Nat.add_assoc, Nat.add_comm 1]
        rfl

/-- The devices that an adapter lacks are opened, each once. -/
theorem attachMissing_eq (a : Station) (host : Host) (devices : List String) :
    attachMissing a host devices = attachAll a host (a.missing devices) := by
  induction devices generalizing a host with
  | nil => rfl
  | cons device rest ih =>
    unfold attachMissing
    by_cases hd : device ∈ a.elements.map Element.name
    · rw [if_pos (Adapter.element?_isSome.2 hd), Adapter.missing_cons_of_attached hd]
      exact ih a host
    · rw [if_neg fun h => hd (Adapter.element?_isSome.1 h)]
      have hnew : a.missing (device :: rest) =
          device :: (a.addElement (.new { name := device, serial := host.opened })).missing rest :=
        Adapter.missing_cons_of_new (d := { name := device, serial := host.opened }) hd
      rw [hnew]
      unfold attachAll
      by_cases hr : device ∈ host.refused
      · rw [Host.open?_refused hr]
      · rw [Host.open?_willing hr]
        exact ih _ _

/-! ## Detaching -/

/-- Elements whose names a test accepts are detached one by one in their order. -/
theorem detachAll_behind {p : String → Bool} {pre rest : List Element} (host : Host)
    (he : a.elements = pre ++ rest) (hpre : ∀ x ∈ pre, p x.name = false)
    (hc : a.composite.cursor = 0 ∨ a.composite.cursor < a.elements.length) :
    detachAll a host ((rest.map Element.name).filter p) =
      (.ok (), a.keeping (pre ++ rest.filter (!p ·.name)),
        { host with released := host.released ++ (rest.filter (p ·.name)).map Element.parting }) := by
  -- those before `rest` were rejected, so that each name is found first at the element it came from
  induction rest generalizing a host pre with
  | nil =>
    have hsame : a.keeping pre = a := by
      rw [List.append_nil] at he
      rw [← he]
      exact Adapter.keeping_elements hc
    simp [detachAll, hsame]
  | cons e rest ih =>
    by_cases hp : p e.name = true
    · have hne : ∀ x ∈ pre, x.name ≠ e.name := fun x hx hn => by
        rw [← hn, hpre x hx] at hp
        cases hp
      have hrest : (a.keeping (pre ++ rest)).elements = pre ++ rest := rfl
      have hshort : (pre ++ rest.filter (!p ·.name)).length ≤ (pre ++ rest).length := by
        simp [List.length_filter_le]
      have hparts : (e :: rest).filter (p ·.name) = e :: rest.filter (p ·.name) :=
        List.filter_cons_of_pos hp
      rw [List.map_cons, List.filter_cons_of_pos hp, List.filter_cons_of_neg (by simpa using hp),
        hparts]
      unfold detachAll
      rw [Adapter.removeElement_behind he hne]
      dsimp only
      rw [ih _ hrest hpre (RoundRobin.clamp_within _ _), Adapter.keeping_keeping hshort]
      simp [Host.release, Element.parting]
    · have hmoved : a.elements = (pre ++ [e]) ++ rest := by
        rw [he, List.append_assoc]
        rfl
      have hmore := ih host hmoved
        (List.forall_mem_append.2 ⟨hpre, List.forall_mem_singleton.2 (by simpa using hp)⟩) hc
      have hparts : (e :: rest).filter (p ·.name) = rest.filter (p ·.name) :=
        List.filter_cons_of_neg hp
      rw [List.map_cons, List.filter_cons_of_neg hp, List.filter_cons_of_pos (by simpa using hp),
        hparts, hmore, List.append_assoc]
      rfl

theorem detachAll_stale (host : Host) (devices : List String)
    (hc : a.composite.cursor = 0 ∨ a.composite.cursor < a.elements.length) :
    detachAll a host ((a.elements.map Element.name).filter fun d => !devices.contains d) =
      (.ok (), a.keeping (a.retained devices),
        { host with released := host.released ++ (a.stale devices).map Element.parting }) := by
  have hsplit : a.elements = [] ++ a.elements := rfl
  have hall := detachAll_behind (p := fun d => !devices.contains d) host hsplit
    (List.forall_mem_nil _) hc
  have hretained : a.elements.filter (fun e => !!devices.contains e.name) = a.retained devices :=
    List.filter_congr fun e _ => by simp
  have hstale : a.elements.filter (fun e => !devices.contains e.name) = a.stale devices :=
    List.filter_congr fun e _ => by simp
  rw [hall, List.nil_append, hretained, hstale]

/-- What is missing is what was missing before the rest was detached. -/
theorem keeping_missing (a : Station) (devices : List String) :
    (a.keeping (a.retained devices)).missing devices = a.missing devices := by
  unfold Adapter.missing
  refine congrArg List.eraseDups (List.filter_congr fun d hd => ?_)
  have hiff : d ∈ (a.keeping (a.retained devices)).elements.map Element.name ↔
      d ∈ a.elements.map Element.name := by
    simp only [Adapter.keeping, Adapter.retained, Adapter.elements, List.mem_map, List.mem_filter,
      decide_eq_true_eq]
    constructor
    · rintro ⟨e, ⟨he, -⟩, rfl⟩
      exact ⟨e, he, rfl⟩
    · rintro ⟨e, he, rfl⟩
      exact ⟨e, ⟨he, hd⟩, rfl⟩
  simp only [hiff]

/-! ## Adapters that are made on demand -/

variable {n m : Node} {name : String} {devices : List String} {x : InterfaceId}

/-- The adapter at an index, or a new one for an interface of a name. -/
def stationAt (n : Node) (id : InterfaceId) (name : String) : Station :=
  (n.station? id).getD
    ((Adapter.new id name).setQueueDepth n.stations.pool n.settings.defaultQueue).1

theorem stationAt_congr (hs : m.stations = n.stations) (ht : m.settings = n.settings)
    (id : InterfaceId) (name : String) : m.stationAt id name = n.stationAt id name := by
  unfold stationAt station?
  rw [hs, ht]

theorem stationAt_of_station {a : Station} {id : InterfaceId} (h : n.station? id = some a)
    (name : String) : n.stationAt id name = a := by
  unfold stationAt
  rw [h]
  rfl

theorem stationAt_owner (n : Node) (id : InterfaceId) (name : String) :
    (n.stationAt id name).owner = id := by
  unfold stationAt
  cases hs : n.station? id with
  | none => exact (Adapter.setQueueDepth_conserves (i := 0) _ _ _).owner
  | some a => exact Stations.get?_owner hs

theorem stationAt_upholds {P : Element → Prop} (h : n.Upholds P) (id : InterfaceId) (name : String) :
    (n.stationAt id name).Upholds P := by
  unfold stationAt
  cases hs : n.station? id with
  | none => exact (Adapter.new_upholds P id name).of_composite (Adapter.setQueueDepth_composite ..)
  | some a => exact h.station hs

/-- An adapter that was put at an index is replaced by another one of the same index. -/
theorem setStation_station {k : Node} {a b : Station} {id : InterfaceId}
    (hk : ∀ x, k.station? x = if x = id then some a else n.station? x) (hb : b.owner = id)
    (x : InterfaceId) :
    (k.setStation b).station? x = if x = id then some b else n.station? x := by
  have ha : k.stations.get? b.owner = some a := by
    rw [hb]
    exact (hk id).trans (if_pos rfl)
  have hreplace := Stations.get?_replace (x := x) ha
  rw [hb] at hreplace
  refine hreplace.trans ?_
  by_cases hx : x = id
  · rw [if_pos hx, if_pos hx]
  · rw [if_neg hx, if_neg hx]
    exact (hk x).trans (if_neg hx)

theorem ensureStation_station (n : Node) (id : InterfaceId) (name : String) (x : InterfaceId) :
    (n.ensureStation id name).station? x =
      if x = id then some (n.stationAt id name) else n.station? x := by
  have howner := n.stationAt_owner id name
  unfold ensureStation
  cases hs : n.station? id with
  | some a =>
    rw [stationAt_of_station hs]
    by_cases hx : x = id
    · subst hx
      simpa using hs
    · simp [hx]
  | none =>
    have hfresh : n.stationAt id name =
        ((Adapter.new id name).setQueueDepth n.stations.pool n.settings.defaultQueue).1 := by
      unfold stationAt
      rw [hs]
      rfl
    have hget := Stations.get?_insert (s := n.stations) (b := n.stationAt id name)
      (howner.symm ▸ hs) x
    simp only [howner, eq_comm (a := id)] at hget
    rw [if_neg (by simp)]
    dsimp only
    rw [← hfresh]
    exact hget

/-- The adapter that comes with an interface of a name. -/
def stationFor (n : Node) (name : String) : Station := n.stationAt (n.indexFor name).1 name

theorem stationFor_owner (n : Node) (name : String) :
    (n.stationFor name).owner = (n.indexFor name).1 := n.stationAt_owner _ name

/-- An interface that is found or made has its adapter, and the others have theirs. -/
theorem addInterface_station (n : Node) (name : String) (x : InterfaceId) :
    (n.addInterface name).2.station? x =
      if x = (n.indexFor name).1 then some (n.stationFor name) else n.station? x := by
  have hsettings : (n.indexFor name).2.settings = n.settings := by
    unfold indexFor
    split
    · rfl
    · split <;> rfl
  let k : Node := { (n.indexFor name).2 with
    topology := (n.indexFor name).2.topology.addInterface (n.indexFor name).1 name }
  have hstations : k.stations = n.stations := indexFor_stations n name
  have hget : k.station? x = n.station? x := congrArg (Stations.get? · x) hstations
  have hstation := k.ensureStation_station (n.indexFor name).1 name x
  rw [stationAt_congr hstations hsettings, hget] at hstation
  exact hstation

/-! ## Backing an interface -/

/-- What becomes of a node in which an interface is backed with a list of devices. -/
structure Backs (n : Node) (name : String) (devices : List String) (m : Node) : Prop where
  topology : m.topology = (n.topology.addInterface (n.indexFor name).1 name).modifyInterface
    (n.indexFor name).1 fun i => { i with binding := i.binding.withDevices devices }
  stations : ∀ x, m.station? x =
    if x = (n.indexFor name).1 then some ((n.stationFor name).backed devices n.host)
    else n.station? x
  host : m.host = { n.host with
    opened := n.host.opened + (n.host.openable ((n.stationFor name).missing devices)).length
    released := n.host.released ++ ((n.stationFor name).stale devices).map Element.parting }

/-- Whether or not a device is refused, those before it are opened and those not listed are gone. -/
theorem setDevices_backs (h : n.Upholds fun _ => True) (name : String) (hd : devices ≠ []) :
    (n.setDevices name devices).1 = n.host.opening ((n.stationFor name).missing devices) ∧
      Backs n name devices (n.setDevices name devices).2 := by
  let a := n.stationFor name
  let k : Node := { (n.addInterface name).2 with
    topology := (n.addInterface name).2.topology.modifyInterface (n.addInterface name).1 fun i =>
      { i with binding := i.binding.withDevices devices } }
  have hs : k.station? (n.addInterface name).1 = some a :=
    (n.addInterface_station name _).trans (if_pos rfl)
  have hhost : k.host = n.host := addInterface_host n name
  have hdetach := detachAll_stale (a := a) n.host devices (stationAt_upholds h _ name).cursor
  have hset : n.setDevices name devices = (n.host.opening (a.missing devices),
      { k.setStation (a.backed devices n.host) with
        host := { n.host with
          opened := n.host.opened + (n.host.openable (a.missing devices)).length
          released := n.host.released ++ (a.stale devices).map Element.parting } }) := by
    unfold setDevices
    rw [if_neg (by simpa using hd)]
    dsimp only
    split
    · rename_i hnone
      cases hs.symm.trans hnone
    · rename_i b hb
      cases hs.symm.trans hb
      rw [show (n.addInterface name).2.host = n.host from hhost, hdetach]
      dsimp only
      rw [attachMissing_eq, keeping_missing, attachAll_eq]
      rfl
  rw [hset]
  refine ⟨rfl, ?_, setStation_station (n.addInterface_station name) (n.stationFor_owner name), rfl⟩
  show k.topology = _
  dsimp only [k]
  rw [addInterface_topology]
  rfl

end Node
end MulticastRelay
