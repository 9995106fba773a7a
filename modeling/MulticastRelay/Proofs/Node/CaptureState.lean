import MulticastRelay.Proofs.Node.InStep
import MulticastRelay.Proofs.Node.Lasting
import MulticastRelay.Proofs.Topology.Conflicts

/-! # Capture follows the graph

Whether an interface captures is found anew in each pass over a group. The enables stand at the
elements, which come enabled, are replaced and are closed without regard to the graph, and the channels
are told what to report. Requests that change the graph end by aligning the elements with it, so that
afterwards the three agree, also where the request met a conflict or a device did not open.
-/
namespace MulticastRelay

/-! ## Elements -/

namespace Element

variable {e x : Element}

/-- Open, the element waits for input exactly if it captures; the channel was told what it waits for. -/
structure Attuned (e : Element) : Prop where
  registered : e.inlet.isClosed = false → e.inlet.registered = e.inlet.enabled
  told : e.device.watching = e.interest

theorem Attuned.of_inlet (h : e.Attuned) (hi : x.inlet = e.inlet)
    (ht : x.device.watching = x.interest) : x.Attuned :=
  ⟨hi ▸ h.registered, ht⟩

theorem setRx_attuned (h : e.device.watching = e.interest) (on : Bool) : (e.setRx on).Attuned := by
  refine ⟨fun _ => ?_, setInput_told (e := { e with rxEnabled := on }) h on⟩
  have hinput := setInput_interest { e with rxEnabled := on } on
  have henabled : (e.setRx on).rxEnabled = on := by
    unfold setRx setInput
    split <;> rfl
  unfold inlet setRx at *
  dsimp only
  rw [henabled, hinput]

theorem receive_told (h : e.device.watching = e.interest) (space : List UInt8) :
    (e.receive space).2.2.device.watching = (e.receive space).2.2.interest := by
  have hw : (e.device.receive space).2.2.watching = e.device.watching := by
    unfold Device.receive
    split
    · rfl
    · split <;> rfl
  unfold receive
  split
  all_goals
    rename_i hr
    rw [hr] at hw
    exact hw.trans h

theorem receive_attuned (h : e.Attuned) (space : List UInt8) : (e.receive space).2.2.Attuned := by
  refine ⟨?_, receive_told h.told space⟩
  have hc : (e.device.receive space).2.2.isClosed = e.device.isClosed := by
    unfold Device.receive
    split
    · rfl
    · split <;> rfl
  have hopen := h.registered
  unfold receive
  split
  all_goals
    rename_i hr
    rw [hr] at hc
    intro ho
    exact hopen (hc.symm.trans ho)

theorem send_told (h : e.device.watching = e.interest) (f : Frame) (source : Option LinkAddress) :
    (e.send f source).2.device.watching = (e.send f source).2.interest := by
  have hw := e.device.offerAs_watching f source
  unfold send
  split
  all_goals
    rename_i hd
    rw [hd] at hw
    exact hw.trans h

/-- Whatever is done to an element leaves it attuned. -/
theorem attuned_lasting : Lasting Attuned where
  attached _ _ := ⟨fun _ => rfl, rfl⟩
  setOutput e on h := h.of_inlet (e.setOutput_inlet on) (setOutput_told h.told on)
  setTx _ _ h := ⟨h.registered, h.told⟩
  setRx _ on h := setRx_attuned h.told on
  send e f source h := h.of_inlet (e.send_inlet f source) (send_told h.told f source)
  receive _ space h := receive_attuned h space
  close _ h := ⟨nofun, (close_registered h.told).told⟩
  meanwhile _ _ h := ⟨h.registered, h.told⟩

end Element

namespace Node

variable {n m : Node}

/-! ## Requests that align capture -/

/-- A request that leaves capture aligned, and the node afterwards. -/
inductive Realigns (n : Node) : Node → Prop where
  /-- The group is known; the pass may meet conflicts. -/
  | associate (group : String) : (n.topology.groupNamed? group).isSome →
      Realigns n (n.associate group).2
  | addMember (group member : String) (role : Role) {bound : Nat} :
      (n.addMember group member role).1 = .ok bound → Realigns n (n.addMember group member role).2
  | addMemberConflict (group member : String) (role : Role) {e : TopologyError} : e.IsConflict →
      (n.addMember group member role).1 = .error (.topology e) →
      Realigns n (n.addMember group member role).2
  | linkUp (link : Link) : Realigns n (n.linkUp link).2
  | linkDown (name : String) : (n.linkDown name).1 = true → Realigns n (n.linkDown name).2
  | removeGroup (group : String) {destroyed : List InterfaceId} {m : Node} :
      n.removeGroup group = .ok (destroyed, m) → Realigns n m

theorem Realigns.reachable (hr : Realigns n m) (h : Reachable n) : Reachable m := by
  cases hr with
  | associate group => exact h.next (.associate group) rfl
  | addMember group member role => exact h.next (.addMember group member role) rfl
  | addMemberConflict group member role => exact h.next (.addMember group member role) rfl
  | linkUp link => exact h.next (.linkUp link) rfl
  | linkDown name => exact h.next (.linkDown name) rfl
  | removeGroup group hm =>
    refine h.next (.removeGroup group) ?_
    show Except.ok (n.orSame ((n.removeGroup group).map (·.2))) = .ok m
    rw [hm]
    rfl

/-- A member is added up to the alignment, or the group is unknown or a device does not open. -/
theorem addMember_synced (n : Node) (group member : String) (role : Role) :
    (∃ k : Node, (n.addMember group member role).2 = k.syncCapture) ∨
      ∃ e, (n.addMember group member role).1 = .error e ∧ ∀ x, x.IsConflict → e ≠ .topology x := by
  unfold addMember
  cases hg : n.groupId? group with
  | error e =>
    refine .inr ⟨e, rfl, ?_⟩
    rintro x - rfl
    unfold groupId? at hg
    split at hg <;> cases hg
  | ok id =>
    dsimp only
    split
    · unfold addWildcardMember
      split
      · rename_i e he
        refine .inr ⟨_, rfl, ?_⟩
        rintro x ⟨edge, owner, count, rfl⟩ hx
        cases hx
        unfold Topology.addMatcher at he
        split at he <;> cases he
      · exact .inl ⟨_, rfl⟩
    · unfold addConcreteMember
      dsimp only
      split
      · rename_i e he
        refine .inr ⟨_, rfl, ?_⟩
        rintro x ⟨edge, owner, count, rfl⟩ hx
        cases hx
        unfold Topology.addMember at he
        split at he
        · cases he
        · split at he <;> cases he
      · split
        · rename_i he
          obtain ⟨x, rfl⟩ := openDevices_error he
          exact .inr ⟨_, rfl, fun _ _ => NodeError.noConfusion⟩
        · exact .inl ⟨_, rfl⟩

theorem Realigns.synced (hr : Realigns n m) : ∃ k : Node, m = k.syncCapture := by
  cases hr with
  | associate group hg =>
    obtain ⟨g, hg⟩ := Option.isSome_iff_exists.1 hg
    unfold Node.associate
    rw [groupId?_of_named hg]
    exact ⟨_, rfl⟩
  | addMember group member role hb =>
    obtain hs | ⟨e, he, -⟩ := addMember_synced n group member role
    · exact hs
    · cases he.symm.trans hb
  | addMemberConflict group member role hx hb =>
    obtain hs | ⟨e, he, hno⟩ := addMember_synced n group member role
    · exact hs
    · exact absurd (Except.error.inj (he.symm.trans hb)) (hno _ hx)
  | linkUp link => exact ⟨_, rfl⟩
  | linkDown name hd =>
    unfold Node.linkDown at hd ⊢
    dsimp only at hd ⊢
    split at hd
    · cases hd
    · exact ⟨_, rfl⟩
  | removeGroup group hm =>
    obtain ⟨gid, -, hm⟩ := ok_of_bind hm
    obtain ⟨⟨ids, topology⟩, -, hm⟩ := ok_of_bind hm
    cases hm
    exact ⟨_, rfl⟩

/-! ## Agreement -/

/-- Every element captures exactly if its interface does, and an open one waits for input exactly if it
captures, which its channel knows. -/
def CaptureFollows (n : Node) : Prop :=
  ∀ a ∈ n.stations.adapters, ∃ i, n.topology.interface? a.owner = some i ∧
    ∀ e ∈ a.elements, e.rxEnabled = i.captureActive ∧
      (e.device.isClosed = false →
        (e.interest.input = true ↔ e.rxEnabled = true) ∧ e.device.watching = e.interest)

/-- Alignment sets each enable to what the graph says. -/
theorem syncCapture_enables {a : Station} {i : Interface} (ha : a ∈ n.syncCapture.stations.adapters)
    (hi : n.topology.interface? a.owner = some i) :
    ∀ e ∈ a.elements, e.rxEnabled = i.captureActive := by
  obtain ⟨b, -, rfl⟩ := List.mem_map.1 ha
  replace hi : n.topology.interface? b.owner = some i := hi
  intro e he
  obtain ⟨x, -, rfl⟩ := List.mem_map.1 he
  rw [hi]
  dsimp only
  split
  · assumption
  · unfold Element.setRx Element.setInput
    split <;> rfl

/-- After a request that aligns capture every element captures as its interface does, whatever opened,
replaced or closed elements before. -/
theorem capture_follows_graph (h : Reachable n) (hr : Realigns n m) : CaptureFollows m := by
  have hm := hr.reachable h
  obtain ⟨k, rfl⟩ := hr.synced
  intro a ha
  have hstep := reachable_inStep hm
  have hstation := (hstep.owned a.owner a).2 ⟨ha, rfl⟩
  obtain ⟨i, hi⟩ := Option.isSome_iff_exists.1
    ((hstep.manned a.owner).1 (Option.isSome_of_eq_some hstation))
  refine ⟨i, hi, fun e he => ⟨syncCapture_enables ha hi e he, fun hopen => ?_⟩⟩
  have hattuned := (reachable_upholds Element.attuned_lasting hm a ha).elements e he
  exact ⟨Bool.eq_iff_iff.1 (hattuned.registered hopen), hattuned.told⟩

/-- An interface that diverts its output and relays nothing stops capturing at the next pass. -/
theorem diverted_capture_stops : ∃ n m : Node, Reachable n ∧ Realigns n m ∧
    n.stations.adapters.map (·.elements.map fun e => (e.rxEnabled, e.interest.input)) =
      [[(true, true)]] ∧
    m.stations.adapters.map (·.elements.map fun e => (e.rxEnabled, e.interest.input)) =
      [[(false, false)]] ∧
    CaptureFollows m := by
  have fresh : Reachable (new { poolSize := 1, frameSize := 1 }) := .new _
  have grouped := fresh.next (.addGroup "lan" .merge .classicalFlooding) rfl
  have joined := grouped.next (.addMember "lan" "eth0" .destination) rfl
  have diverted := joined.next (.modifyFlags "eth0" fun f => { f with divertOutput := true }) rfl
  exact ⟨_, _, diverted, .associate "lan" (by decide +kernel), by decide +kernel, by decide +kernel,
    capture_follows_graph diverted (.associate "lan" (by decide +kernel))⟩

end Node
end MulticastRelay
