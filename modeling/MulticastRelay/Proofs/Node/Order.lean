import MulticastRelay.Proofs.Node.InStep

/-! # Adapters in ascending order

A node keeps its adapters in ascending order of their interfaces. Adapters come in at their place and
go out from it; whatever else an operation does to them, it leaves them where they are.
-/
namespace MulticastRelay

namespace Node

variable {n m : Node} {id : InterfaceId} {name : String}

/-- The adapters are in ascending order of their interfaces, and there is one for each at most. -/
def Ordered (n : Node) : Prop := n.stations.owners.Pairwise fun a b => a.index < b.index

theorem Ordered.nodup (h : n.Ordered) : n.stations.owners.Nodup := by
  have hne : ∀ {a b : InterfaceId}, a.index < b.index → a ≠ b := by
    rintro a b hlt rfl
    exact Nat.lt_irrefl _ hlt
  exact List.Pairwise.imp hne h

theorem Ordered.of_owners (h : n.Ordered) (ho : m.stations.owners = n.stations.owners) :
    m.Ordered := by
  unfold Ordered
  rw [ho]
  exact h

theorem Ordered.of_roster (h : n.Ordered) (hr : SameRoster n m) : m.Ordered := h.of_owners hr.owners

theorem syncCapture_ordered (h : n.Ordered) : n.syncCapture.Ordered :=
  h.of_roster (syncCapture_roster n)

/-! ## Adapters coming and going -/

theorem ordered_iff : n.Ordered ↔ n.stations.adapters.Pairwise (Adapter.before · ·) := by
  unfold Ordered Stations.owners
  rw [List.pairwise_map]
  simp only [Adapter.before, InterfaceId.before, decide_eq_true_eq]

theorem ensureStation_ordered (h : n.Ordered) (id : InterfaceId) (name : String) :
    (n.ensureStation id name).Ordered := by
  unfold ensureStation
  split
  · exact h
  · have trans : ∀ {a b c : Station}, a.before b = true → b.before c = true → a.before c = true := by
      intro a b c hab hbc
      simp only [Adapter.before, InterfaceId.before, decide_eq_true_eq] at hab hbc ⊢
      exact Nat.lt_trans hab hbc
    exact ordered_iff.2 (Ascending.insert_pairwise trans (ordered_iff.1 h))

theorem dropStation_ordered (h : n.Ordered) (id : InterfaceId) : (n.dropStation id).Ordered := by
  unfold dropStation
  split
  · exact h
  · exact ordered_iff.2 ((ordered_iff.1 h).filter _)

theorem dropAll_ordered (ids : List InterfaceId) (h : n.Ordered) :
    (ids.foldl dropStation n).Ordered :=
  List.foldlRecOn ids _ (motive := Ordered) h fun _ h id _ => dropStation_ordered h id

theorem addInterface_ordered (h : n.Ordered) (name : String) : (n.addInterface name).2.Ordered := by
  refine ensureStation_ordered (h.of_owners ?_) _ name
  exact congrArg Stations.owners (indexFor_stations n name)

theorem openDevices_ordered (h : n.Ordered) (id : InterfaceId) : (n.openDevices id).2.Ordered := by
  unfold openDevices
  split
  · exact h
  · have he := ensureStation_ordered h id
    dsimp only
    split
    · exact he _
    · split
      · exact he _
      · exact (he _).of_owners (Stations.replace_owners _ _)

/-! ## Operations -/

theorem setDevices_ordered (h : n.Ordered) (name : String) (devices : List String) :
    (n.setDevices name devices).2.Ordered := by
  have ha := addInterface_ordered h name
  unfold setDevices
  split
  · exact h
  · dsimp only
    split
    · exact ha
    · split <;> exact ha.of_owners (Stations.replace_owners _ _)

theorem bindVif_ordered (h : n.Ordered) (name vif : String) (address : LinkAddress) :
    (n.bindVif name vif address).2.Ordered := by
  unfold bindVif
  split
  · exact h
  · split
    · exact h
    · dsimp only
      split
      · exact h
      · exact h.of_owners (Stations.replace_owners _ _)

theorem linkUp_ordered (h : n.Ordered) (link : Link) : (n.linkUp link).2.Ordered := by
  unfold linkUp
  apply syncCapture_ordered
  apply openDevices_ordered
  exact h.of_owners rfl

theorem linkDown_ordered (h : n.Ordered) (name : String) : (n.linkDown name).2.Ordered := by
  unfold linkDown
  dsimp only
  split
  · exact h
  · apply syncCapture_ordered
    apply dropStation_ordered
    exact h.of_owners rfl

theorem addWildcardMember_ordered (h : n.Ordered) (group : GroupId) (stem : String) (role : Role) :
    (n.addWildcardMember group stem role).2.Ordered := by
  unfold addWildcardMember
  split
  · exact h
  · apply syncCapture_ordered
    exact List.foldlRecOn _ _ (motive := Ordered) (h.of_owners rfl)
      fun _ h link _ => openDevices_ordered h ⟨link.index⟩

theorem addConcreteMember_ordered (h : n.Ordered) (group : GroupId) (member : String) (role : Role) :
    (n.addConcreteMember group member role).2.Ordered := by
  have ha := addInterface_ordered h member
  unfold addConcreteMember
  dsimp only
  split
  · exact ha
  · rename_i topology _
    have hn : Ordered { (n.addInterface member).2 with topology } := ha.of_owners rfl
    have ho := openDevices_ordered hn (n.addInterface member).1
    split
    · rename_i he
      rw [he] at ho
      exact ho
    · rename_i he
      rw [he] at ho
      apply syncCapture_ordered
      exact ho.of_owners rfl

theorem addMember_ordered (h : n.Ordered) (group member : String) (role : Role) :
    (n.addMember group member role).2.Ordered := by
  unfold addMember
  split
  · exact h
  · split
    · exact addWildcardMember_ordered h _ _ _
    · exact addConcreteMember_ordered h _ _ _

theorem associate_ordered (h : n.Ordered) (group : String) : (n.associate group).2.Ordered := by
  unfold associate
  split
  · exact h
  · apply syncCapture_ordered
    exact h.of_owners rfl

theorem removeMember_ordered (h : n.Ordered) {group member : String}
    (hm : n.removeMember group member = .ok m) : m.Ordered := by
  obtain ⟨gid, -, hm⟩ := ok_of_bind hm
  obtain ⟨id, -, hm⟩ := ok_of_bind hm
  obtain ⟨⟨destroyed, topology⟩, -, hm⟩ := ok_of_bind hm
  cases hm
  split
  · apply dropStation_ordered
    exact h.of_owners rfl
  · exact h

theorem removeGroup_ordered (h : n.Ordered) {group : String} {gone : List InterfaceId}
    (hm : n.removeGroup group = .ok (gone, m)) : m.Ordered := by
  obtain ⟨gid, -, hm⟩ := ok_of_bind hm
  obtain ⟨⟨ids, topology⟩, -, hm⟩ := ok_of_bind hm
  cases hm
  apply syncCapture_ordered
  apply dropAll_ordered
  exact h.of_owners rfl

/-! ## Runs -/

theorem orSame_ordered (h : n.Ordered) {r : Except NodeError Node}
    (hr : ∀ m, r = .ok m → m.Ordered) : (n.orSame r).Ordered := by
  cases r with
  | error e => exact h
  | ok m => exact hr m rfl

theorem next_ordered (h : n.Ordered) (e : Event) (hm : n.next e = .ok m) : m.Ordered := by
  cases e with
  | setOracle | setLinks | addGroup | refusals =>
    cases hm
    exact h
  | linkUp link =>
    cases hm
    exact linkUp_ordered h link
  | linkDown name =>
    cases hm
    exact linkDown_ordered h name
  | addInterface name =>
    cases hm
    exact addInterface_ordered h name
  | setDevices name devices =>
    cases hm
    exact setDevices_ordered h name devices
  | bindVif name vif address =>
    cases hm
    exact bindVif_ordered h name vif address
  | setDeviceTx name device on =>
    cases hm
    exact h.of_roster (orSame_roster fun _ hm => setDeviceTx_roster hm)
  | setShadow | setPolicy =>
    cases hm
    exact h.of_roster (orSame_roster fun _ hm => modifyStation_roster hm)
  | setRateLimit name rate now =>
    obtain ⟨r, hr, rfl⟩ := ok_of_map hm
    exact h.of_roster (setRateLimit_roster hr)
  | setQueueDepth name depth =>
    cases hm
    exact h.of_roster (orSame_roster fun _ hm => setQueueDepth_roster hm)
  | modifyFlags | addAddress | setGroupPolicy =>
    cases hm
    refine orSame_ordered h fun m hm => ?_
    obtain ⟨id, -, hm⟩ := ok_of_bind hm
    cases hm
    exact h
  | addMember group member role =>
    cases hm
    exact addMember_ordered h group member role
  | associate group =>
    cases hm
    exact associate_ordered h group
  | removeMember group member =>
    cases hm
    exact orSame_ordered h fun _ hm => removeMember_ordered h hm
  | removeGroup group =>
    cases hm
    refine orSame_ordered h fun _ hm => ?_
    obtain ⟨⟨gone, m⟩, hr, rfl⟩ := ok_of_map hm
    exact removeGroup_ordered h hr
  | forward destinations f now =>
    obtain ⟨⟨r, m⟩, hr, rfl⟩ := ok_of_map hm
    exact h.of_roster (forward_roster hr)
  | ingress id f now =>
    obtain ⟨⟨r, m⟩, hr, rfl⟩ := ok_of_map hm
    exact h.of_roster (ingress_roster hr)
  | poll now =>
    obtain ⟨⟨r, m⟩, hr, rfl⟩ := ok_of_map hm
    exact h.of_roster (poll_roster hr)
  | shutdown =>
    cases hm
    exact h.of_roster (shutdown_roster n)
  | channels change =>
    cases hm
    exact h.of_owners (mapStations_roster n (g := (·.mapDevices (Device.meanwhile change)))
      fun _ => rfl).owners

/-- In every run the adapters stay in order. -/
theorem reachable_ordered (h : Reachable n) : n.Ordered := by
  induction h with
  | new settings => exact .nil
  | next e _ hm ih => exact next_ordered ih e hm

end Node
end MulticastRelay
