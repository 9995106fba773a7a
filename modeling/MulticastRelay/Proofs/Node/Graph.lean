import MulticastRelay.Node.Membership
import MulticastRelay.Proofs.Adapter.Effects

/-! # The graph of a node

Much of what a node does is about adapters and devices alone. Its topology, its table of links and the
index made up last stay as they are.
-/
namespace MulticastRelay

namespace Node

variable {n m k : Node} {id : InterfaceId} {name : String}

/-- Only adapters, devices, counters or settings differ. -/
structure SameGraph (n m : Node) : Prop where
  topology : m.topology = n.topology
  links : m.links = n.links
  lastSynthetic : m.lastSynthetic = n.lastSynthetic

namespace SameGraph

theorem refl (n : Node) : SameGraph n n := ⟨rfl, rfl, rfl⟩

theorem trans (h : SameGraph n m) (k' : SameGraph m k) : SameGraph n k :=
  ⟨k'.topology.trans h.topology, k'.links.trans h.links, k'.lastSynthetic.trans h.lastSynthetic⟩

end SameGraph

theorem groupId?_of_named {g : Group} (hg : n.topology.groupNamed? name = some g) :
    n.groupId? name = .ok g.id := by
  unfold groupId?
  rw [hg]

theorem ensureStation_graph (n : Node) (id : InterfaceId) (name : String) :
    SameGraph n (n.ensureStation id name) := by
  unfold ensureStation
  split
  · exact .refl n
  · exact ⟨rfl, rfl, rfl⟩

theorem ensureStation_host (n : Node) (id : InterfaceId) (name : String) :
    (n.ensureStation id name).host = n.host := by
  unfold ensureStation
  split <;> rfl

theorem openDevices_graph (n : Node) (id : InterfaceId) : SameGraph n (n.openDevices id).2 := by
  unfold openDevices
  split
  · exact .refl n
  · rename_i i hi
    have he := ensureStation_graph n id i.name
    dsimp only
    split
    · exact he
    · split
      · exact he
      · exact ⟨he.topology, he.links, he.lastSynthetic⟩

theorem syncCapture_graph (n : Node) : SameGraph n n.syncCapture := ⟨rfl, rfl, rfl⟩

theorem tryOpenAll_graph (ls : List Link) (n : Node) :
    SameGraph n (ls.foldl (fun n l => n.tryOpenDevices ⟨l.index⟩) n) := by
  induction ls generalizing n with
  | nil => exact .refl n
  | cons l ls ih => exact (openDevices_graph n ⟨l.index⟩).trans (ih _)

/-- A device that does not open is an error of the transport. -/
theorem attachAll_error {a b : Station} {host final : Host} {e : NodeError} (devices : List String)
    (h : attachAll a host devices = (.error e, b, final)) : ∃ x, e = .transport x := by
  induction devices generalizing a host with
  | nil => cases h
  | cons device devices ih =>
    unfold attachAll at h
    cases ho : host.open? device with
    | error x =>
      rw [ho] at h
      cases h
      exact ⟨x, rfl⟩
    | ok d =>
      rw [ho] at h
      exact ih h

theorem openDevices_error {e : NodeError} (h : n.openDevices id = (.error e, m)) :
    ∃ x, e = .transport x := by
  unfold openDevices at h
  split at h
  · cases h
  · dsimp only at h
    split at h
    · cases h
    · split at h
      · cases h
      · obtain ⟨hr, -⟩ := Prod.mk.inj h
        exact attachAll_error _ (Prod.ext hr rfl)

/-! ## Settings of one interface -/

theorem modifyStation_graph {f : Station → Station} (h : n.modifyStation name f = .ok m) :
    SameGraph n m := by
  unfold modifyStation at h
  obtain ⟨a, -, h⟩ := ok_of_bind h
  cases h
  exact ⟨rfl, rfl, rfl⟩

theorem setQueueDepth_graph {depth : QueueDepth} (h : n.setQueueDepth name depth = .ok m) :
    SameGraph n m := by
  unfold setQueueDepth at h
  obtain ⟨a, -, h⟩ := ok_of_bind h
  cases h
  exact ⟨rfl, rfl, rfl⟩

theorem setRateLimit_graph {rate : Float} {now : Instant}
    (h : n.setRateLimit name rate now = .ok (.ok m)) :
    SameGraph n m := by
  unfold setRateLimit at h
  split at h
  · cases h
  · obtain ⟨a, -, h⟩ := ok_of_bind h
    cases h
    exact ⟨rfl, rfl, rfl⟩

end Node
end MulticastRelay
