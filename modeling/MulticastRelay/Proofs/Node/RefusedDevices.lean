import MulticastRelay.Proofs.Node.Backing
import MulticastRelay.Proofs.Topology.Refusals

/-! # Devices that are refused

A software interface is opened before anything else happens, so that one that is refused changes
nothing. Devices are opened last: by then the interface was found or made and took its binding or its
place in the group, devices no longer listed are closed, and nobody takes this back. A refusal leaves no
trace exactly where all of this had been done before and the first device to open is the one refused.
-/
namespace MulticastRelay

theorem Ascending.insert_member_again {id : InterfaceId} {ids : List InterfaceId}
    (h : ids.Pairwise fun a b => a.before b = true) (hm : id ∈ ids) :
    insert InterfaceId.before id ids = ids := by
  induction ids with
  | nil => cases hm
  | cons a rest ih =>
    obtain ⟨ha, hrest⟩ := List.pairwise_cons.1 h
    have hself : id.before id = false := by simp [InterfaceId.before]
    unfold insert
    rcases List.mem_cons.1 hm with rfl | hm
    · simp [hself]
    · have hlt := ha id hm
      have hgt : id.before a = false := by
        simp only [InterfaceId.before, decide_eq_true_eq, decide_eq_false_iff_not] at hlt ⊢
        omega
      simp [hlt, hgt, ih hrest hm]

namespace Topology

variable {t u v : Topology} {id : InterfaceId} {gid : GroupId} {name : String} {role : Role}
  {g : Group}

/-- An interface takes a binding or the like without a trace if it was there under its name, answered
to it, and had taken it already. -/
theorem Intact.dress_unchanged_iff (h : Intact t) {f : Interface → Interface}
    (hf : ∀ i, (f i).id = i.id ∧ (f i).name = i.name) :
    Unchanged t ((t.addInterface id name).modifyInterface id f) ↔
      t.nameOf? id = some name ∧ t.holderOf? name = some id ∧
        ∀ i, t.interface? id = some i → f i = i := by
  have hadded : Unchanged t (t.addInterface id name) ↔ _ := h.addInterface_unchanged_iff
  have hself := Keyed.modify_eq_self_iff (f := f) (k := id) (h.addInterface id name).ids
  constructor
  · intro hs
    have hrecast : (t.addInterface id name).Recast ((t.addInterface id name).modifyInterface id f) :=
      modifyInterface_recast (fun i _ => (hf i).2) fun i hi => (hf i).1.trans hi
    have hsame := hrecast.sameNames
    have hname : t.nameOf? id = some name := by
      have hn := hsame.naming id
      rw [h.nameOf?_addInterface, if_pos rfl] at hn
      unfold nameOf? interface? at hn ⊢
      rwa [hs.interfaces] at hn
    have hholder : t.holderOf? name = some id := by
      rw [← hs.holders, hsame.holders, holderOf?_rename, if_pos rfl]
    have hback := hadded.2 ⟨hname, hholder⟩
    refine ⟨hname, hholder, fun i hi => ?_⟩
    refine hself.1 (hs.interfaces.trans hback.interfaces.symm) i ?_
    rw [hback.interfaces]
    exact hi
  · rintro ⟨hname, hholder, hid⟩
    have hback := hadded.2 ⟨hname, hholder⟩
    have hstay : (t.addInterface id name).modifyInterface id f = t.addInterface id name := by
      refine (h.addInterface id name).modifyInterface_self fun i hi => hid i ?_
      unfold interface? at hi ⊢
      rwa [hback.interfaces] at hi
    rw [hstay]
    exact hback

theorem addMember_eq (hg : t.group? gid = some g) (hu : t.addMember gid id role = .ok u) :
    u = t.modifyGroup gid fun g =>
      if role = .source ∧ (g.insertMember id).mode = .push then (g.insertMember id).setSource id
      else g.insertMember id := by
  unfold Topology.addMember at hu
  rw [hg] at hu
  split at hu
  · cases hu
  · cases hu
    rfl

/-- The groups are the same if theirs has the member already, as its source if it joins as such. -/
theorem Intact.addMember_groups_iff (h : Intact t) (hg : t.group? gid = some g)
    (hu : t.addMember gid id role = .ok u) :
    u.groups = t.groups ↔ g.hasMember id = true ∧
      (role = .source → g.mode = .push → g.isTemplate = false ∧ g.source = some id) := by
  let join : Group → Group := fun g =>
    if role = .source ∧ (g.insertMember id).mode = .push then (g.insertMember id).setSource id
    else g.insertMember id
  have hgroups : u.groups = t.groups ↔ join g = g := by
    rw [addMember_eq hg hu]
    refine (Keyed.modify_eq_self_iff h.handles).trans ⟨fun hs => hs g hg, fun hs k hk => ?_⟩
    cases hg.symm.trans hk
    exact hs
  have hmember : g.hasMember id = true ↔ id ∈ g.members := by simp [Group.hasMember]
  rw [hgroups, hmember]
  constructor
  · intro hs
    have hmembers : (join g).members = (g.insertMember id).members := by
      dsimp only [join]
      split <;> rfl
    refine ⟨?_, fun hr hp => ?_⟩
    · rw [← hs, hmembers]
      exact Group.mem_insertMember.2 (.inl rfl)
    · have hsourced : join g = (g.insertMember id).setSource id := if_pos ⟨hr, hp⟩
      rw [← hs, hsourced]
      exact ⟨rfl, rfl⟩
  · rintro ⟨hin, hsource⟩
    have hagain : g.insertMember id = g := by
      unfold Group.insertMember
      rw [Ascending.insert_member_again (h.peopled g (h.group?_eq.1 hg).1).sorted hin]
    dsimp only [join]
    rw [hagain]
    split
    · rename_i hpush
      obtain ⟨ht, hs⟩ := hsource hpush.1 hpush.2
      unfold Group.setSource
      rw [← ht, ← hs]
    · rfl

/-- An interface joins a group without a trace if it was there under its name, answered to it, and the
group had it already. -/
theorem Intact.join_unchanged_iff (h : Intact t) (hg : t.group? gid = some g)
    (hu : (t.addInterface id name).addMember gid id role = .ok u) :
    Unchanged t u ↔ (t.nameOf? id = some name ∧ t.holderOf? name = some id) ∧
      g.hasMember id = true ∧
        (role = .source → g.mode = .push → g.isTemplate = false ∧ g.source = some id) := by
  have hadded : Unchanged t (t.addInterface id name) ↔ _ := h.addInterface_unchanged_iff
  have hg' : (t.addInterface id name).group? gid = some g :=
    (group?_congr addInterface_groups gid).trans hg
  have hjoined := (h.addInterface id name).addMember_groups_iff hg' hu
  have hinterfaces := addMember_interfaces hu
  have hholders := (addMember_sameNames hu).holders
  constructor
  · intro hs
    have hback : Unchanged t (t.addInterface id name) :=
      { interfaces := hinterfaces.symm.trans hs.interfaces
        holders := fun x => (hholders x).symm.trans (hs.holders x)
        groups := addInterface_groups
        groupNames := addInterface_groupNames
        matchers := addInterface_matchers
        lastGroup := addInterface_lastGroup }
    exact ⟨hadded.1 hback, hjoined.1 (hs.groups.trans addInterface_groups.symm)⟩
  · rintro ⟨hknown, hin⟩
    have hback := hadded.2 hknown
    have heq := addMember_eq hg' hu
    exact {
      interfaces := hinterfaces.trans hback.interfaces
      holders := fun x => (hholders x).trans (hback.holders x)
      groups := (hjoined.2 hin).trans hback.groups
      groupNames := (congrArg Topology.groupNames heq).trans hback.groupNames
      matchers := (congrArg Topology.matchers heq).trans hback.matchers
      lastGroup := (congrArg Topology.lastGroup heq).trans hback.lastGroup }

end Topology

namespace Adapter

variable {σ : Type} {a : Adapter σ} {names devices : List String} {host : Host}

theorem attaching_elements_iff :
    (a.attaching names host).elements = a.elements ↔ host.openable names = [] := by
  constructor
  · intro hs
    have hnames := a.attaching_names names host
    rw [hs] at hnames
    simpa using hnames
  · intro hnone
    rw [attaching_of_openable_nil hnone]

/-- Backing an adapter leaves its elements alone if it has none but of listed devices, and no device
opens. -/
theorem backed_elements_iff : (a.backed devices host).elements = a.elements ↔
    (∀ e ∈ a.elements, e.name ∈ devices) ∧ host.openable (a.missing devices) = [] := by
  have hretained : a.retained devices = a.elements ↔ ∀ e ∈ a.elements, e.name ∈ devices := by
    unfold retained
    rw [List.filter_eq_self]
    simp only [decide_eq_true_eq]
  unfold backed
  rw [← hretained]
  constructor
  · intro hs
    have hnone : host.openable (a.missing devices) = [] := by
      refine List.eq_nil_iff_forall_not_mem.2 fun d hd => ?_
      have hnew := (mem_missing.1 ((List.takeWhile_sublist _).mem hd)).2
      rw [← hs, attaching_names] at hnew
      exact hnew (List.mem_append_right _ hd)
    rw [attaching_of_openable_nil hnone] at hs
    exact ⟨hs, hnone⟩
  · rintro ⟨hall, hnone⟩
    rw [attaching_of_openable_nil hnone]
    exact hall

end Adapter

namespace Node

variable {n m : Node} {name group member : String} {devices : List String} {gid : GroupId}
  {role : Role} {e : TransportError} {i : Interface} {id : InterfaceId}

/-- Interfaces, bindings, members and associates are the same, and so are the elements of every
adapter. -/
structure Untouched (n m : Node) : Prop where
  topology : Topology.Unchanged n.topology m.topology
  elements : ∀ x, (m.station? x).map Adapter.elements = (n.station? x).map Adapter.elements

/-! ## Interfaces that are known -/

theorem indexFor_named (hi : n.topology.interfaceNamed? name = some i) :
    (n.indexFor name).1 = i.id ∧ n.topology.interface? i.id = some i := by
  obtain ⟨x, -, hx⟩ := Option.bind_eq_some_iff.1 hi
  have hid : i.id = x := (Keyed.get?_mem hx).2
  unfold indexFor
  rw [hi]
  exact ⟨rfl, hid ▸ hx⟩

/-- An interface is found without a trace if its name is known. -/
theorem Aligned.known_iff (h : n.Aligned []) (name : String) :
    n.topology.nameOf? (n.indexFor name).1 = some name ∧
        n.topology.holderOf? name = some (n.indexFor name).1 ↔
      ∃ i, n.topology.interfaceNamed? name = some i := by
  constructor
  · rintro ⟨-, hholder⟩
    obtain ⟨i, hi, -⟩ := h.named.interface?_of_holder hholder
    exact ⟨i, hi⟩
  · rintro ⟨i, hi⟩
    obtain ⟨x, hholder, hx⟩ := Option.bind_eq_some_iff.1 hi
    have hid : i.id = x := (Keyed.get?_mem hx).2
    rw [(indexFor_named hi).1, hid]
    exact ⟨(h.named name x).1 hholder, hholder⟩

theorem Aligned.stationFor_named (h : n.Aligned [])
    (hi : n.topology.interfaceNamed? name = some i) :
    n.station? (n.indexFor name).1 = some (n.stationFor name) := by
  obtain ⟨hindex, hx⟩ := indexFor_named hi
  have hmans := (h.manned i.id (Topology.has_iff.2 ⟨i, hx⟩)).resolve_right List.not_mem_nil
  obtain ⟨a, ha⟩ := Option.isSome_iff_exists.1 (mans_iff.1 hmans)
  unfold stationFor
  rw [hindex, ha, stationAt_of_station ha]

/-- Where one adapter changes, the elements of all are the same if its are. -/
theorem elements_iff {a b : Station} (hn : n.station? id = some a)
    (hm : ∀ x, m.station? x = if x = id then some b else n.station? x) :
    (∀ x, (m.station? x).map Adapter.elements = (n.station? x).map Adapter.elements) ↔
      b.elements = a.elements := by
  constructor
  · intro hs
    have hid := hs id
    rw [hm, if_pos rfl, hn] at hid
    exact Option.some.inj hid
  · intro hs x
    rw [hm]
    by_cases hx : x = id
    · rw [if_pos hx, hx, hn]
      exact congrArg some hs
    · rw [if_neg hx]

/-! ## Software interfaces -/

theorem interfaceId?_error {x : NodeError} (h : n.interfaceId? name = .error x) :
    x = .unknownInterface name := by
  unfold interfaceId? at h
  split at h
  · cases h
  · exact (Except.error.inj h).symm

theorem stationNamed?_error {x : NodeError} (h : n.stationNamed? name = .error x) :
    x = .unknownInterface name := by
  unfold stationNamed? at h
  cases hid : n.interfaceId? name with
  | error y =>
    rw [hid] at h
    exact (Except.error.inj h).symm.trans (interfaceId?_error hid)
  | ok id =>
    rw [hid] at h
    dsimp only [bind, Except.bind] at h
    split at h
    · cases h
    · exact (Except.error.inj h).symm

/-- A software interface that cannot be opened leaves the node as it was. -/
theorem bindVif_refused {vif : String} {address : LinkAddress}
    (he : (n.bindVif name vif address).1 = .error (.transport e)) :
    (n.bindVif name vif address).2 = n := by
  unfold bindVif at he ⊢
  split
  · rfl
  · rename_i id hid
    rw [hid] at he
    split
    · rfl
    · rename_i d host hd
      rw [hd] at he
      dsimp only at he
      -- the device is open by now, so that only the interface can be missing
      split at he
      · rename_i x hx
        cases he
        cases stationNamed?_error hx
      · cases he

/-! ## Lists of devices -/

/-- The interface is there, bound to the devices of a list and with elements of no others, and the first
device that it lacks is refused. -/
def AllButBacked (n : Node) (name : String) (devices : List String) : Prop :=
  ∃ i a, n.topology.interfaceNamed? name = some i ∧ n.station? i.id = some a ∧
    i.binding.withDevices devices = i.binding ∧ (∀ x ∈ a.elements, x.name ∈ devices) ∧
    ∃ d, (a.missing devices).head? = some d ∧ d ∈ n.host.refused

theorem setDevices_refused_iff (h : Reachable n)
    (he : (n.setDevices name devices).1 = .error (.transport e)) :
    Untouched n (n.setDevices name devices).2 ↔ AllButBacked n name devices := by
  have ha := reachable_aligned h
  have hd : devices ≠ [] := by
    rintro rfl
    cases he
  obtain ⟨hresult, hb⟩ := setDevices_backs (reachable_upholds Element.lasting_trivial h) name hd
  have hopening := hresult.symm.trans he
  have htopology := (iff_of_eq (congrArg (Topology.Unchanged n.topology) hb.topology)).trans
    (ha.intact.dress_unchanged_iff fun _ => ⟨rfl, rfl⟩)
  constructor
  · rintro ⟨ht, hs⟩
    obtain ⟨hname, hholder, hbound⟩ := htopology.1 ht
    obtain ⟨i, hi⟩ := (ha.known_iff name).1 ⟨hname, hholder⟩
    obtain ⟨hindex, hx⟩ := indexFor_named hi
    have hstation := ha.stationFor_named hi
    obtain ⟨hlisted, hnone⟩ := Adapter.backed_elements_iff.1
      ((elements_iff hstation hb.stations).1 hs)
    rw [hindex] at hbound
    exact ⟨i, _, hi, hindex ▸ hstation, congrArg Interface.binding (hbound i hx), hlisted,
      (Host.openable_eq_nil hopening).1 hnone⟩
  · rintro ⟨i, a, hi, hstation, hbinding, hlisted, hfirst⟩
    obtain ⟨hindex, hx⟩ := indexFor_named hi
    rw [← hindex] at hstation
    cases hstation.symm.trans (ha.stationFor_named hi)
    obtain ⟨hname, hholder⟩ := (ha.known_iff name).2 ⟨i, hi⟩
    refine ⟨htopology.2 ⟨hname, hholder, fun j hj => ?_⟩, ?_⟩
    · rw [hindex, hx] at hj
      cases hj
      rw [hbinding]
    · refine (elements_iff hstation hb.stations).2 (Adapter.backed_elements_iff.2 ?_)
      exact ⟨hlisted, (Host.openable_eq_nil hopening).2 hfirst⟩

/-! ## Members -/

/-- The devices of an interface are refused only if its adapter had no elements. Those before stay. -/
theorem openDevices_stops {x : NodeError} (he : (n.openDevices id).1 = .error x) :
    ∃ i, n.topology.interface? id = some i ∧ (n.stationAt id i.name).elements = [] ∧
      n.host.opening i.binding.devices = .error x ∧
      ∀ y, (n.openDevices id).2.station? y =
        if y = id then some ((n.stationAt id i.name).attaching i.binding.devices n.host)
        else n.station? y := by
  unfold openDevices at he ⊢
  split at he
  · cases he
  · rename_i i hi
    let a := n.stationAt id i.name
    have hstation : ∀ y, (n.ensureStation id i.name).station? y =
        if y = id then some a else n.station? y := ensureStation_station n id i.name
    have hhost := ensureStation_host n id i.name
    have ha := (hstation id).trans (if_pos rfl)
    rw [hi]
    dsimp only at he ⊢
    rw [ha] at he ⊢
    dsimp only at he ⊢
    by_cases hbare : a.elements = []
    · have hopen : ¬(!a.elements.isEmpty) = true := by simp [hbare]
      rw [if_neg hopen, attachAll_eq, hhost] at he
      rw [if_neg hopen, attachAll_eq, hhost]
      refine ⟨i, rfl, hbare, he, setStation_station hstation ?_⟩
      exact n.stationAt_owner id i.name
    · have hkept : (!a.elements.isEmpty) = true := by simpa using hbare
      rw [if_pos hkept] at he
      cases he

/-- What a node is once the devices of a new member were refused. -/
structure Forsakes (n : Node) (gid : GroupId) (member : String) (role : Role) (x : NodeError)
    (i : Interface) (m : Node) : Prop where
  topology : (n.topology.addInterface (n.indexFor member).1 member).addMember gid
    (n.indexFor member).1 role = .ok m.topology
  interface : m.topology.interface? (n.indexFor member).1 = some i
  bare : (n.stationFor member).elements = []
  refused : n.host.opening i.binding.devices = .error x
  stations : ∀ y, m.station? y =
    if y = (n.indexFor member).1 then
      some ((n.stationFor member).attaching i.binding.devices n.host)
    else n.station? y

theorem addConcreteMember_refused
    (he : (n.addConcreteMember gid member role).1 = .error (.transport e)) :
    ∃ i, Forsakes n gid member role (.transport e) i (n.addConcreteMember gid member role).2 := by
  let k := (n.addInterface member).2
  let x := (n.indexFor member).1
  have hk : ∀ y, k.station? y = if y = x then some (n.stationFor member) else n.station? y :=
    n.addInterface_station member
  have htopology : k.topology = n.topology.addInterface x member := addInterface_topology n member
  have hhost : k.host = n.host := addInterface_host n member
  -- the transport fails while the devices are opened: what comes before and after has other errors
  have hstops : ∃ u, k.topology.addMember gid x role = .ok u ∧
      (openDevices { k with topology := u } x).1 = .error (.transport e) ∧
      (n.addConcreteMember gid member role).2 = (openDevices { k with topology := u } x).2 := by
    unfold addConcreteMember at he ⊢
    dsimp only at he ⊢
    split at he
    · cases he
    · rename_i u hu
      refine ⟨u, hu, ?_⟩
      split at he
      · rename_i y m ho
        cases he
        exact ⟨congrArg Prod.fst ho, (congrArg Prod.snd ho).symm⟩
      · rename_i m ho
        cases hr : (m.topology.associate gid).1 with
        | ok r =>
          rw [hr] at he
          cases he
        | error y =>
          rw [hr] at he
          cases he
  obtain ⟨u, hu, hopen, hleft⟩ := hstops
  obtain ⟨i, hi, hbare, hopening, hstations⟩ := openDevices_stops hopen
  have hat : stationAt { k with topology := u } x i.name = n.stationFor member :=
    stationAt_of_station ((hk x).trans (if_pos rfl)) i.name
  rw [hat] at hbare
  have hgraph := (openDevices_graph { k with topology := u } x).topology
  rw [hleft]
  refine ⟨i, ?_, ?_, hbare, ?_, fun y => ?_⟩
  · rw [hgraph, ← htopology]
    exact hu
  · rw [hgraph]
    exact hi
  · rw [← hhost]
    exact hopening
  · rw [hstations, hat]
    by_cases hy : y = x
    · rw [if_pos hy, if_pos hy, show ({ k with topology := u } : Node).host = n.host from hhost]
    · rw [if_neg hy, if_neg hy]
      exact (hk y).trans (if_neg hy)

/-- The interface is there and in the group, as its source if it is to join a push group as such, and
its first device is refused. -/
def AllButJoined (n : Node) (group member : String) (role : Role) : Prop :=
  ∃ g i, n.topology.groupNamed? group = some g ∧ n.topology.interfaceNamed? member = some i ∧
    (g.hasMember i.id = true ∧
      (role = .source → g.mode = .push → g.isTemplate = false ∧ g.source = some i.id)) ∧
    ∃ d, i.binding.devices.head? = some d ∧ d ∈ n.host.refused

theorem addMember_refused_iff (h : Reachable n) (hc : wildcardStem? member = none)
    (he : (n.addMember group member role).1 = .error (.transport e)) :
    Untouched n (n.addMember group member role).2 ↔ AllButJoined n group member role := by
  have ha := reachable_aligned h
  obtain ⟨g, hg, hrun⟩ : ∃ g, n.topology.groupNamed? group = some g ∧
      n.addMember group member role = n.addConcreteMember g.id member role := by
    unfold addMember groupId? at he ⊢
    cases hg : n.topology.groupNamed? group with
    | none =>
      rw [hg] at he
      cases he
    | some g =>
      rw [hc]
      exact ⟨g, rfl, rfl⟩
  have hgroup : n.topology.group? g.id = some g :=
    ha.intact.group?_eq.2 ⟨(ha.intact.groupNamed?_eq.1 hg).1, rfl⟩
  rw [hrun] at he ⊢
  obtain ⟨j, hf⟩ := addConcreteMember_refused he
  have htopology := ha.intact.join_unchanged_iff hgroup hf.topology
  have hfirst := Host.openable_eq_nil hf.refused
  have hinterface : Topology.Unchanged n.topology (n.addConcreteMember g.id member role).2.topology →
      ∀ i, n.topology.interfaceNamed? member = some i → i = j := by
    intro ht i hi
    obtain ⟨hindex, hx⟩ := indexFor_named hi
    have hj := hf.interface
    unfold Topology.interface? at hj hx
    rw [ht.interfaces, hindex, hx] at hj
    exact Option.some.inj hj
  constructor
  · rintro ⟨ht, hs⟩
    obtain ⟨hknown, hin⟩ := htopology.1 ht
    obtain ⟨i, hi⟩ := (ha.known_iff member).1 hknown
    cases hinterface ht i hi
    have hsame := (elements_iff (ha.stationFor_named hi) hf.stations).1 hs
    exact ⟨g, j, hg, hi, (indexFor_named hi).1 ▸ hin,
      hfirst.1 (Adapter.attaching_elements_iff.1 hsame)⟩
  · rintro ⟨k, i, hk, hi, hin, hd⟩
    cases hg.symm.trans hk
    have ht := htopology.2 ⟨(ha.known_iff member).2 ⟨i, hi⟩, (indexFor_named hi).1.symm ▸ hin⟩
    cases hinterface ht i hi
    exact ⟨ht, (elements_iff (ha.stationFor_named hi) hf.stations).2
      (Adapter.attaching_elements_iff.2 (hfirst.2 hd))⟩

/-- What a refused device changes, call by call. A software interface changes nothing. A list of
devices and a new member do, unless all that they do before the first device is opened had been done
before, and that device is the one refused. -/
theorem refused_untouched_iff (h : Reachable n) :
    (∀ {name vif : String} {address : LinkAddress} {e : TransportError},
      (n.bindVif name vif address).1 = .error (.transport e) →
        (n.bindVif name vif address).2 = n) ∧
    (∀ {name : String} {devices : List String} {e : TransportError},
      (n.setDevices name devices).1 = .error (.transport e) →
        (Untouched n (n.setDevices name devices).2 ↔ AllButBacked n name devices)) ∧
    (∀ {group member : String} {role : Role} {e : TransportError},
      wildcardStem? member = none → (n.addMember group member role).1 = .error (.transport e) →
        (Untouched n (n.addMember group member role).2 ↔ AllButJoined n group member role)) :=
  ⟨bindVif_refused, setDevices_refused_iff h, addMember_refused_iff h⟩

/-- A node with a working interface and a mesh, and a device that will not open. -/
def waryNode : Node :=
  let n := ((new { poolSize := 4, frameSize := 64 }).setDevices "wan" ["d0"]).2
  let n := (n.addGroup "mesh" .merge .classicalFlooding).2
  { n with host.refused := ["bad0"] }

theorem waryNode_reachable : Reachable waryNode := by
  have fresh : Reachable (new { poolSize := 4, frameSize := 64 }) := .new _
  have backed := fresh.next (.setDevices "wan" ["d0"]) rfl
  have grouped := backed.next (.addGroup "mesh" .merge .classicalFlooding) rfl
  exact grouped.next (.refusals ["bad0"]) rfl

/-- The working interface loses its device to the one that is refused, and an interface without devices
stays in the mesh. To ask for the device again, or as a software interface, changes nothing. -/
theorem working_device_lost :
    (waryNode.setDevices "wan" ["bad0"]).1 = .error (.transport (.invalidDevice "bad0")) ∧
    ¬Untouched waryNode (waryNode.setDevices "wan" ["bad0"]).2 ∧
    Untouched (waryNode.setDevices "wan" ["bad0"]).2
      ((waryNode.setDevices "wan" ["bad0"]).2.setDevices "wan" ["bad0"]).2 ∧
    (waryNode.addMember "mesh" "bad0" .destination).1 =
      .error (.transport (.invalidDevice "bad0")) ∧
    ¬Untouched waryNode (waryNode.addMember "mesh" "bad0" .destination).2 ∧
    (waryNode.bindVif "wan" "bad0" ⟨[2, 0, 0, 0, 0, 1], rfl⟩).1 =
      .error (.transport (.invalidDevice "bad0")) ∧
    (waryNode.bindVif "wan" "bad0" ⟨[2, 0, 0, 0, 0, 1], rfl⟩).2 = waryNode := by
  obtain ⟨hvif, hdevices, hmember⟩ := refused_untouched_iff waryNode_reachable
  have again := waryNode_reachable.next (.setDevices "wan" ["bad0"]) rfl
  have hlost : (waryNode.setDevices "wan" ["bad0"]).1 =
      .error (.transport (.invalidDevice "bad0")) := by decide +kernel
  have hrefused : ((waryNode.setDevices "wan" ["bad0"]).2.setDevices "wan" ["bad0"]).1 =
      .error (.transport (.invalidDevice "bad0")) := by decide +kernel
  have hjoined : (waryNode.addMember "mesh" "bad0" .destination).1 =
      .error (.transport (.invalidDevice "bad0")) := by decide +kernel
  have hvirtual : (waryNode.bindVif "wan" "bad0" ⟨[2, 0, 0, 0, 0, 1], rfl⟩).1 =
      .error (.transport (.invalidDevice "bad0")) := by decide +kernel
  refine ⟨hlost, ?_, ?_, hjoined, ?_, hvirtual, hvif hvirtual⟩
  · rw [hdevices hlost]
    rintro ⟨i, a, hi, -, hbound, -⟩
    have hother : (waryNode.topology.interfaceNamed? "wan").map Interface.binding =
        some (.physical "d0") := by decide +kernel
    rw [hi] at hother
    have hphysical : i.binding = .physical "d0" := Option.some.inj hother
    rw [hphysical] at hbound
    exact absurd hbound (by decide)
  · rw [(refused_untouched_iff again).2.1 hrefused]
    let m := (waryNode.setDevices "wan" ["bad0"]).2
    let i := (m.topology.interfaceNamed? "wan").get (by decide +kernel)
    exact ⟨i, (m.station? i.id).get (by decide +kernel), (Option.some_get _).symm,
      (Option.some_get _).symm, by decide +kernel, by decide +kernel, "bad0", by decide +kernel,
      by decide +kernel⟩
  · rw [hmember (by decide) hjoined]
    rintro ⟨g, i, -, hi, -⟩
    have hnew : waryNode.topology.interfaceNamed? "bad0" = none := by decide +kernel
    cases hnew.symm.trans hi

end Node
end MulticastRelay
