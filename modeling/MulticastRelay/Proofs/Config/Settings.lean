import MulticastRelay.Proofs.Adapter.Effects
import MulticastRelay.Proofs.Config.Applying

/-! # Settings of interfaces

Applying the entry of an interface makes the interface if need be, opens its devices and sets its
attributes. None of this shows in the portrait, so the entries of groups are all that counts.
-/
namespace MulticastRelay

namespace Config

open MulticastRelay.Topology Applying

variable {links : List Link} {es : List GroupEntry} {n m : Node} {name : String}

namespace Applied

theorem of_graph (hg : Node.SameGraph n m) (h : Applied links es n) : Applied links es m :=
  ⟨h.standing.of_graph hg, hg.links.trans h.links⟩

theorem addInterface (h : Applied links es n) (hl : LinkNames links) (name : String) :
    Applied links es (n.addInterface name).2 := by
  obtain ⟨hs, hk, -⟩ := h.standing.addInterface hl name
  exact ⟨hs, hk.trans h.links⟩

theorem modifyInterface (h : Applied links es n) (id : InterfaceId) {f : Interface → Interface}
    (hf : ∀ i, (f i).id = i.id ∧ (f i).name = i.name ∧ (f i).associates = i.associates) :
    Applied links es { n with topology := n.topology.modifyInterface id f } :=
  ⟨h.standing.modifyInterface hf (.refl _), h.links⟩

theorem modifyFlags {f : InterfaceFlags → InterfaceFlags} (h : Applied links es n)
    (hm : n.modifyFlags name f = .ok m) : Applied links es m := by
  unfold Node.modifyFlags at hm
  obtain ⟨id, -, hm⟩ := ok_of_bind hm
  cases hm
  exact h.modifyInterface id fun _ => ⟨rfl, rfl, rfl⟩

theorem addAddress {address : IPAddress} (h : Applied links es n)
    (hm : n.addAddress name address = .ok m) :
    Applied links es m := by
  unfold Node.addAddress at hm
  obtain ⟨id, -, hm⟩ := ok_of_bind hm
  cases hm
  refine h.modifyInterface id fun i => ?_
  unfold Interface.addAddress
  split <;> exact ⟨rfl, rfl, rfl⟩

theorem setDevices (h : Applied links es n) (hl : LinkNames links) (name : String)
    (devices : List String) :
    Applied links es (n.setDevices name devices).2 := by
  unfold Node.setDevices
  split
  · exact h
  · have hm := (h.addInterface hl name).modifyInterface (n.addInterface name).1
      (f := fun i => { i with binding := i.binding.withDevices devices }) fun _ => ⟨rfl, rfl, rfl⟩
    dsimp only
    split
    · exact hm
    · split <;> refine Applied.of_graph ?_ hm <;> exact ⟨rfl, rfl, rfl⟩

theorem bindVif (h : Applied links es n) (name vif : String) (address : LinkAddress) :
    Applied links es (n.bindVif name vif address).2 := by
  unfold Node.bindVif
  split
  · exact h
  · rename_i id _
    split
    · exact h
    · have hm := h.modifyInterface id
        (f := fun i => { i with binding := .virtual vif i.binding.devices })
        fun _ => ⟨rfl, rfl, rfl⟩
      dsimp only
      split <;> refine Applied.of_graph ?_ hm <;> exact ⟨rfl, rfl, rfl⟩

end Applied

theorem setRate_keeps (name : String) (rate : Float) (now : Instant) :
    Keeps (Applied links es) (setRate name rate now) := by
  unfold setRate
  refine leads_bind leads_get fun n => leads_bind leads_clock fun r => ?_
  cases r with
  | error e => exact leads_throw
  | ok k =>
    refine leads_set fun m hm => ?_
    obtain ⟨hr, rfl, hn⟩ := hm
    exact hn.of_graph (Node.setRateLimit_graph hr)

theorem applyInterface_keeps (hl : LinkNames links) (e : InterfaceEntry) (now : Instant) :
    Keeps (Applied links es) (applyInterface e now) := by
  have hgraph : ∀ {f : Node → Except NodeError Node}, (∀ n m, f n = .ok m → Node.SameGraph n m) →
      Keeps (Applied links es) (change f) :=
      fun hf => keeps_change fun n m hn hm => hn.of_graph (hf n m hm)
  unfold applyInterface
  refine keeps_bind (leads_step fun n a m hn hm => ?_) fun _ => ?_
  · have := hn.setDevices hl e.name e.deviceList
    rwa [hm] at this
  refine keeps_bind (hgraph fun _ _ => Node.modifyStation_graph) fun _ => ?_
  refine keeps_bind (hgraph fun _ _ => Node.modifyStation_graph) fun _ => ?_
  refine keeps_bind (keeps_change fun n m hn hm => hn.modifyFlags hm) fun _ => ?_
  refine keeps_bind (keeps_forM fun a => keeps_change fun n m hn hm => hn.addAddress hm) fun _ => ?_
  dsimp only
  split
  on_goal 1 => refine keeps_bind (hgraph fun _ _ => Node.setQueueDepth_graph) fun _ => ?_
  -- The rate and the software interface come last, after a queue depth or without one.
  all_goals
    refine keeps_bind (setRate_keeps _ _ _) fun _ => ?_
    split
    · exact leads_pure fun _ hn => hn
    · rename_i vif _
      split
      · exact leads_throw
      · refine keeps_bind (leads_lift fun _ _ _ hn => hn) fun address =>
          leads_step fun n a m hn hm => ?_
        have := hn.bindVif e.name vif address
        rwa [hm] at this

end Config
end MulticastRelay
