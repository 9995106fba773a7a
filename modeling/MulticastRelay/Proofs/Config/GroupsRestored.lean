import MulticastRelay.Proofs.Config.GroupEntries
import MulticastRelay.Proofs.Config.InterfacesRestored

/-! # Groups restored

Applying a group entry in saved form to a node without links adds that entry to what a capture shows,
and leaves the entries of interfaces alone. Conflicts over edges change neither.
-/
namespace MulticastRelay.Config

open MulticastRelay.Topology Applying

variable {n m : Node} {s : NodeSettings} {es : List InterfaceEntry} {gs : List GroupEntry}
  {d e : GroupEntry} {g : Group} {mode : Mode} {name member stem : String} {x y : InterfaceId}
  {role : Role}

/-! ## Nodes with groups -/

/-- A node whose interfaces and groups a capture shows as some entries. -/
structure Grouped (s : NodeSettings) (es : List InterfaceEntry) (gs : List GroupEntry)
    (n : Node) : Prop extends Shows s es n where
  lists : Lists gs n.topology

/-- The last group is `g`, with the entry `d` so far. -/
structure Drafting (s : NodeSettings) (es : List InterfaceEntry) (gs : List GroupEntry)
    (d : GroupEntry) (g : Group) (n : Node) : Prop extends Shows s es n where
  draft : Drafts gs d g n.topology

/-- The last group is of one mode. -/
def Drafted (s : NodeSettings) (es : List InterfaceEntry) (gs : List GroupEntry)
    (d : GroupEntry) (mode : Mode) (n : Node) : Prop :=
  ∃ g, g.mode = mode ∧ Drafting s es gs d g n

/-- Groups and matchers are not shown with the interfaces. -/
theorem Shows.regroup {t : Topology} (h : Shows s es n) (hi : t.interfaces = n.topology.interfaces)
    (ha : ({ n with topology := t } : Node).Aligned []) : Shows s es { n with topology := t } where
  aligned := ha
  settings := h.settings
  links := h.links
  willing := h.willing
  ascending := by
    dsimp only
    rw [hi]
    exact h.ascending
  bounded := by
    dsimp only
    rw [hi]
    exact h.bounded
  entries := by
    dsimp only
    rw [hi]
    exact h.entries

theorem Drafting.unseen (h : Drafting s es gs d g n) (hr : Redresses n m id) (ha : m.Aligned []) :
    Drafting s es gs d g m where
  toShows := by
    have hshows := h.toShows.redress hr ha
    rwa [List.map_id] at hshows
  draft := h.draft.frame hr.groups hr.matchers hr.nameOf?

/-- Interfaces stand in the order of their indices. -/
theorem Shows.before {v w : String} (h : Shows s es n) (hs : [v, w].Sublist (es.map (·.name)))
    (hx : n.topology.nameOf? x = some v) (hy : n.topology.nameOf? y = some w) :
    x.before y = true := by
  have hid : ∀ {i : Interface} {z : InterfaceId}, i ∈ n.topology.interfaces →
      n.topology.nameOf? z = some i.name → i.id = z := by
    intro i z hi hz
    obtain ⟨j, hj, hn⟩ := Option.map_eq_some_iff.1 hz
    obtain ⟨hmem, rfl⟩ := Keyed.get?_mem hj
    rw [interface_of_name h.aligned (exists_interfaceNamed h.aligned hi) hmem hn]
  rw [h.names] at hs
  obtain ⟨l, hl, hnames⟩ := List.sublist_map_iff.1 hs
  obtain ⟨i, l', rfl, rfl, he⟩ := List.map_eq_cons_iff.1 hnames.symm
  obtain ⟨j, l'', rfl, rfl, -⟩ := List.map_eq_cons_iff.1 he
  have hi := hid (hl.subset List.mem_cons_self) hx
  have hj := hid (hl.subset (List.mem_cons_of_mem _ List.mem_cons_self)) hy
  have hp := (List.pairwise_map.1 h.ascending).sublist hl
  exact hi ▸ hj ▸ (List.pairwise_cons.1 hp).1 j List.mem_cons_self

theorem Drafts.groupId?_eq (h : Drafts gs d g n.topology) (hi : n.topology.Intact) :
    n.groupId? d.name = .ok g.id := by
  have hfound : n.topology.groupNamed? d.name = some g :=
    hi.groupNamed?_eq.2 ⟨h.mem, h.name_eq⟩
  unfold Node.groupId?
  rw [hfound]

/-! ## A new group -/

theorem Grouped.addGroup (h : Grouped s es gs n) (hn : name ∉ gs.map (·.name)) (mode : Mode)
    (relay : RelayType) :
    Drafted s es gs { name, mode := mode.token, relay := relay.token } mode
      (n.addGroup name mode relay).2 := by
  obtain ⟨g, hg, hd⟩ := h.lists.addGroup h.aligned.intact hn mode relay
  exact ⟨g, hg, h.toShows.regroup (addGroup_interfaces _ name mode relay)
    (h.aligned.of_sameNames (h.aligned.intact.addGroup name mode relay)
      (addGroup_sameNames _ name mode relay)), hd⟩

theorem Drafted.setGroupPolicy (h : Drafted s es gs d mode n) (policy : GroupPolicy)
    (tunnel resequence : Bool) :
    ∃ m, n.setGroupPolicy d.name policy tunnel resequence = .ok m ∧
      Drafted s es gs { d with
        elastic := policy.elastic
        unicast := policy.unicast
        pathMetric := policy.pathMetric
        tunnel := tunnel
        resequence := resequence } mode m := by
  obtain ⟨g, hg, h⟩ := h
  have hi := h.aligned.intact
  have hm : n.setGroupPolicy d.name policy tunnel resequence = .ok { n with
      topology := n.topology.modifyGroup g.id fun g => { g with policy, tunnel, resequence } } := by
    simp [Node.setGroupPolicy, h.draft.groupId?_eq hi, bind, Except.bind, pure, Except.pure]
  exact ⟨_, hm, { g with policy, tunnel, resequence }, hg,
    h.toShows.regroup rfl (Node.setGroupPolicy_aligned h.aligned hm),
    h.draft.setGroupPolicy hi policy tunnel resequence⟩

/-! ## Members -/

/-- What applying a member takes as done. -/
def Tolerated (r : Except NodeError Nat) : Prop :=
  (∃ bound, r = .ok bound) ∨
    ∃ edge owner conflicts, r = .error (.topology (.conflict edge owner conflicts))

theorem applyMember_reaches {P : Node → Prop} {Q : Unit → Node → Prop} {group : String}
    (h : ∀ n, P n → Tolerated (n.addMember group member role).1 ∧
      Q () (n.addMember group member role).2) : Reaches P (applyMember group member role) Q := by
  refine reaches_bind reaches_get fun k => ?_
  rintro n ⟨rfl, hn⟩
  obtain ⟨ht, hq⟩ := h k hn
  cases hm : k.addMember group member role with
  | mk r j =>
    rw [hm] at ht hq
    rcases ht with ⟨bound, rfl⟩ | ⟨edge, owner, conflicts, rfl⟩
    · exact ⟨(), j, rfl, hq⟩
    · exact ⟨(), j, rfl, hq⟩

/-- The interface of an entry is found, not made. -/
theorem Drafting.find (h : Drafting s es gs d g n) (hm : member ∈ es.map (·.name)) :
    ∃ x k, n.addInterface member = (x, k) ∧ k.topology.nameOf? x = some member ∧
      Drafting s es gs d g k := by
  obtain ⟨i, hi⟩ := h.exists_interface hm
  obtain ⟨hid, hadd⟩ := Redresses.addInterface h.aligned hi
  refine ⟨i.id, (n.addInterface member).2, Prod.ext hid rfl, ?_,
    h.unseen hadd (Node.addInterface_aligned h.aligned member)⟩
  rw [hadd.nameOf?, nameOf?, interface?_of_name h.aligned hi]
  exact congrArg some (interfaceNamed?_name h.aligned hi)

/-- Devices open, and that shows in nothing. -/
theorem Drafting.openDevices (h : Drafting s es gs d g n) (x : InterfaceId) :
    ∃ k, n.openDevices x = (.ok (), k) ∧ Drafting s es gs d g k := by
  obtain ⟨hok, hopen⟩ := Redresses.openDevices h.aligned h.willing x
  have hlater : n.Aligned [x] := ⟨h.aligned.intact, h.aligned.named, h.aligned.links,
    h.aligned.present, fun a ha => (h.aligned.manned a ha).imp_right (List.mem_cons_of_mem _)⟩
  exact ⟨(n.openDevices x).2, Prod.ext hok rfl, h.unseen hopen (Node.openDevices_aligned hlater)⟩

/-- A pass over a group that is there ends well or in a conflict. -/
theorem associate_tolerated {t : Topology} (h : Intact t) (hg : g ∈ t.groups) :
    Tolerated (((t.associate g.id).1.map fun _ => 1).mapError .topology) := by
  rw [associate_eq (h.group?_eq.2 ⟨hg, rfl⟩)]
  unfold AssociationTally.outcome
  split
  · exact .inr ⟨_, _, _, rfl⟩
  · exact .inl ⟨_, rfl⟩

/-- A pass over the last group ends well or in a conflict, and shows in nothing. -/
theorem Drafting.associate (h : Drafting s es gs d g n) :
    Tolerated (((n.topology.associate g.id).1.map fun _ => 1).mapError .topology) ∧
      Drafting s es gs d g (Node.syncCapture
        { n with topology := (n.topology.associate g.id).2 }) := by
  have hi := h.aligned.intact
  have ha := h.aligned.of_sameNames (hi.associate g.id) (associate_sameNames _ g.id)
  have hpass := h.unseen (Redresses.associate h.aligned g.id) ha
  refine ⟨associate_tolerated hi h.draft.mem, ?_⟩
  exact hpass.unseen (Redresses.syncCapture ha) (Node.associate_aligned h.aligned g.id)

theorem addConcreteMember_eq {gid : GroupId} {u : Topology} {k v : Node}
    (ha : n.addInterface member = (x, k)) (hu : k.topology.addMember gid x role = .ok u)
    (ho : Node.openDevices { k with topology := u } x = (.ok (), v)) :
    n.addConcreteMember gid member role =
      (((v.topology.associate gid).1.map fun _ => 1).mapError .topology,
        Node.syncCapture { v with topology := (v.topology.associate gid).2 }) := by
  unfold Node.addConcreteMember
  rw [ha]
  dsimp only
  rw [hu]
  dsimp only
  rw [ho]

/-- How a group takes an interface in. -/
def joinAs (role : Role) (x : InterfaceId) (g : Group) : Group :=
  if role = .source ∧ (g.insertMember x).mode = .push then (g.insertMember x).setSource x
  else g.insertMember x

theorem joinAs_same (role : Role) (x : InterfaceId) (g : Group) :
    (joinAs role x g).id = g.id ∧ (joinAs role x g).mode = g.mode := by
  unfold joinAs
  split <;> exact ⟨rfl, rfl⟩

/-- An interface that is there joins the last group. -/
theorem Drafted.join {d' : GroupEntry} (h : Drafted s es gs d mode n)
    (hm : member ∈ es.map (·.name)) (hplain : wildcardStem? member = none)
    (hjoin : ∀ k g x, Drafting s es gs d g k → g.mode = mode →
      k.topology.nameOf? x = some member →
        Drafts gs d' (joinAs role x g) (k.topology.modifyGroup g.id (joinAs role x))) :
    Tolerated (n.addMember d.name member role).1 ∧
      Drafted s es gs d' mode (n.addMember d.name member role).2 := by
  obtain ⟨g, hg, h⟩ := h
  have hrun : n.addMember d.name member role = n.addConcreteMember g.id member role := by
    unfold Node.addMember
    rw [h.draft.groupId?_eq h.aligned.intact]
    dsimp only
    rw [hplain]
  obtain ⟨x, k, hfind, hx, hk⟩ := h.find hm
  obtain ⟨hid, hmode⟩ := joinAs_same role x g
  let u := k.topology.modifyGroup g.id (joinAs role x)
  have hu : k.topology.addMember g.id x role = .ok u := by
    obtain ⟨j, hj, -⟩ := Option.map_eq_some_iff.1 hx
    unfold Topology.addMember
    rw [hj, hk.aligned.intact.group?_eq.2 ⟨hk.draft.mem, rfl⟩]
    rfl
  have hjoined : Drafting s es gs d' (joinAs role x g) { k with topology := u } :=
    ⟨hk.toShows.regroup rfl (hk.aligned.of_sameNames (hk.aligned.intact.addMember hu)
      (addMember_sameNames hu)), hjoin k g x hk hg hx⟩
  obtain ⟨v, hopen, hv⟩ := hjoined.openDevices x
  obtain ⟨htolerated, hdone⟩ := hv.associate
  rw [hid] at htolerated hdone
  rw [hrun, addConcreteMember_eq hfind hu hopen]
  exact ⟨htolerated, _, hmode.trans hg, hdone⟩

/-- An interface after those that are members already joins the last group as a destination. -/
theorem Drafted.addDestination (h : Drafted s es gs d mode n) (hm : member ∈ es.map (·.name))
    (hplain : ∀ w ∈ es.map (·.name), wildcardStem? w = none) (hs : d.source ≠ some member)
    (hlast : ∀ w ∈ d.members, [w, member].Sublist (es.map (·.name))) :
    Tolerated (n.addMember d.name member .destination).1 ∧
      Drafted s es gs { d with members := d.members ++ [member] } mode
        (n.addMember d.name member .destination).2 := by
  refine h.join hm (hplain member hm) fun k g x hk _ hx => ?_
  have hjoin : joinAs .destination x = (·.insertMember x) :=
    funext fun g => if_neg fun hr => by cases hr.1
  rw [hjoin]
  exact hk.draft.insertMember hk.aligned.intact hx hs fun w hw =>
    ⟨hplain w ((hlast w hw).subset List.mem_cons_self), fun y hy => hk.before (hlast w hw) hy hx⟩

/-- An interface becomes the source of the last group, a blank push group. -/
theorem Drafted.addSource (h : Drafted s es gs d .push n) (hm : member ∈ es.map (·.name))
    (hplain : wildcardStem? member = none) (hs : d.source = none) (hd : d.members = []) :
    Tolerated (n.addMember d.name member .source).1 ∧
      Drafted s es gs { d with source := some member } .push (n.addMember d.name member .source).2 := by
  exact h.join hm hplain fun k g x hk hg hx =>
    hk.draft.setSource hk.aligned.intact hs hd hx (if_pos ⟨rfl, hg⟩)

/-! ## Wildcards -/

theorem addWildcardMember_eq {gid : GroupId} {r : Matcher} {t : Topology} (hl : n.links = [])
    (hm : n.topology.addMatcher gid stem role = .ok (r, t)) :
    n.addWildcardMember gid stem role = (.ok 0, Node.syncCapture { n with topology := t }) := by
  have hsorted : n.sortedLinks = [] := by
    unfold Node.sortedLinks
    rw [hl, List.mergeSort_nil]
  have hnone : Node.sortedLinks { n with topology := t } = [] := hsorted
  unfold Node.addWildcardMember
  rw [hm]
  dsimp only
  rw [hnone]
  rfl

/-- A matcher of the last group is filed. -/
theorem Drafted.file {d' : GroupEntry} (h : Drafted s es gs d mode n)
    (hfile : ∀ g, Drafting s es gs d g n → g.mode = mode → ∃ r t k, k.mode = mode ∧
      Drafts gs d' k t ∧ t.interfaces = n.topology.interfaces ∧
        n.topology.addMatcher g.id stem role = .ok (r, t)) :
    Tolerated (n.addMember d.name (wildcardName stem) role).1 ∧
      Drafted s es gs d' mode (n.addMember d.name (wildcardName stem) role).2 := by
  obtain ⟨g, hg, h⟩ := h
  obtain ⟨r, t, k, hk, hd, hi, hm⟩ := hfile g h hg
  have hrun : n.addMember d.name (wildcardName stem) role = n.addWildcardMember g.id stem role := by
    unfold Node.addMember
    rw [h.draft.groupId?_eq h.aligned.intact, wildcardStem?_wildcardName]
  have ha := h.aligned.of_sameNames (h.aligned.intact.addMatcher hm) (addMatcher_sameNames hm)
  have hdrafting : Drafting s es gs d' k { n with topology := t } := ⟨h.toShows.regroup hi ha, hd⟩
  rw [hrun, addWildcardMember_eq h.links hm]
  exact ⟨.inl ⟨0, rfl⟩, k, hk, hdrafting.unseen (Redresses.syncCapture ha)
    (ha.of_roster (Node.syncCapture_roster _))⟩

/-- A wildcard after those that are members already joins the last group as a destination. -/
theorem Drafted.addWildcard (h : Drafted s es gs d mode n)
    (hm : ∀ r, wildcardName r ∈ d.members → StemBefore r stem) :
    Tolerated (n.addMember d.name (wildcardName stem) .destination).1 ∧
      Drafted s es gs { d with members := d.members ++ [wildcardName stem] } mode
        (n.addMember d.name (wildcardName stem) .destination).2 := by
  refine h.file fun g hg hmode => ?_
  have hi := hg.aligned.intact
  refine ⟨⟨stem, g.name, .destination, g.mode, g.relayType⟩, _, g, hmode,
    hg.draft.insertWildcard hi hm, rfl, ?_⟩
  unfold addMatcher
  rw [hi.group?_eq.2 ⟨hg.draft.mem, rfl⟩]
  rfl

/-- A wildcard becomes the source of the last group, a blank push group. -/
theorem Drafted.addWildcardSource (h : Drafted s es gs d .push n) (hs : d.source = none)
    (hd : d.members = []) :
    Tolerated (n.addMember d.name (wildcardName stem) .source).1 ∧
      Drafted s es gs { d with source := some (wildcardName stem) } .push
        (n.addMember d.name (wildcardName stem) .source).2 := by
  refine h.file fun g hg hmode => ?_
  have hi := hg.aligned.intact
  refine ⟨⟨stem, g.name, .source, g.mode, g.relayType⟩, _, g.makeTemplate, hmode,
    hg.draft.insertSource hi hs hd hmode, rfl, ?_⟩
  unfold addMatcher
  rw [hi.group?_eq.2 ⟨hg.draft.mem, rfl⟩]
  dsimp only
  rw [if_pos ⟨rfl, hmode⟩]
  rfl

/-! ## An entry -/

section Entry

variable (hplain : ∀ w ∈ es.map (·.name), wildcardStem? w = none)

include hplain

/-- The source comes before the members. -/
theorem applySource_reaches (he : e.Saved (es.map (·.name))) (hmode : e.mode = mode.token) :
    Reaches (Drafted s es gs { e with source := none, members := [] } mode)
      (e.source.toList.forM (applyMember e.name · .source)) fun _ =>
        Drafted s es gs { e with members := [] } mode := by
  cases hs : e.source with
  | none => exact reaches_pure fun _ hn => hn
  | some w =>
    have hpush : mode = .push :=
      Mode.token_inj (hmode.symm.trans (he.push (by rw [hs]; exact Option.some_ne_none w)))
    subst hpush
    refine reaches_bind (Q := fun _ => Drafted s es gs { e with source := some w, members := [] } .push)
      (applyMember_reaches fun n hn => ?_) fun _ => reaches_pure fun _ hn => hn
    rcases he.source w hs with hin | hmark
    · exact hn.addSource hin (hplain w hin) rfl rfl
    · obtain ⟨stem, rfl⟩ := exists_wildcardName hmark
      exact hn.addWildcardSource rfl rfl

/-- Wildcards come after the members that are interfaces. -/
theorem applyWildcards_reaches {named stems : List String}
    (hnamed : named.Sublist (es.map (·.name))) (hstems : stems.Pairwise StemBefore) :
    Reaches (Drafted s es gs { e with members := named } mode)
      (stems.forM fun stem => applyMember e.name (wildcardName stem) .destination) fun _ =>
        Drafted s es gs { e with members := named ++ stems.map wildcardName } mode := by
  have hnot : ∀ r, wildcardName r ∉ named := fun r hin => by
    have hnone := hplain _ (hnamed.subset hin)
    rw [wildcardStem?_wildcardName] at hnone
    cases hnone
  have hloop := reaches_forM (l := stems)
    (f := fun stem => applyMember e.name (wildcardName stem) .destination)
    (I := fun done => Drafted s es gs { e with members := named ++ done.map wildcardName } mode)
    fun done stem rest hsplit => applyMember_reaches fun n hn => by
      have hlast : ∀ r, wildcardName r ∈ named ++ done.map wildcardName → StemBefore r stem := by
        intro r hr
        obtain ⟨q, hq, he⟩ := List.mem_map.1 ((List.mem_append.1 hr).resolve_left (hnot r))
        rw [hsplit] at hstems
        exact wildcardName_inj he ▸ (List.pairwise_append.1 hstems).2.2 q hq stem List.mem_cons_self
      have hfile := hn.addWildcard hlast
      rwa [List.append_assoc, ← List.map_singleton, ← List.map_append] at hfile
  rwa [List.map_nil, List.append_nil] at hloop

/-- The members follow the source. -/
theorem applyMembers_reaches (he : e.Saved (es.map (·.name))) :
    Reaches (Drafted s es gs { e with members := [] } mode)
      (e.members.forM (applyMember e.name · .destination)) fun _ => Drafted s es gs e mode := by
  obtain ⟨named, stems, hmembers, hnamed, hstems⟩ := he.members
  have hloop : e.members.forM (applyMember e.name · .destination) = (do
      named.forM (applyMember e.name · .destination)
      stems.forM fun stem => applyMember e.name (wildcardName stem) .destination) := by
    simp only [hmembers, List.forM_eq_forM, List.forM_append, List.forM_map]
  have hlast : Reaches (Drafted s es gs { e with members := named } mode)
      (stems.forM fun stem => applyMember e.name (wildcardName stem) .destination) fun _ =>
        Drafted s es gs { e with members := named ++ stems.map wildcardName } mode :=
    applyWildcards_reaches hplain hnamed hstems
  rw [← hmembers] at hlast
  rw [hloop]
  refine reaches_bind (reaches_forM
    (I := fun done => Drafted s es gs { e with members := done } mode)
    fun done w rest hsplit => applyMember_reaches fun n hn => ?_) fun _ => hlast
  have hw : w ∈ named := hsplit ▸ List.mem_append_right _ List.mem_cons_self
  refine hn.addDestination (hnamed.subset hw) hplain
    (fun hs => he.apart w hs (hmembers ▸ List.mem_append_left _ hw)) fun v hv => ?_
  refine List.Sublist.trans ?_ (hsplit ▸ hnamed)
  exact (List.singleton_sublist.2 hv).append (List.singleton_sublist.2 List.mem_cons_self)

/-- An entry in saved form is added. -/
theorem applyGroup_reaches (he : e.Saved (es.map (·.name))) (hn : e.name ∉ gs.map (·.name)) :
    Reaches (Grouped s es gs) (applyGroup e) fun _ => Grouped s es (gs ++ [e]) := by
  obtain ⟨mode, hmode⟩ := he.mode
  obtain ⟨relay, hrelay⟩ := he.relay
  have hreadMode : groupToken e (Mode.ofToken e.mode) = .ok mode := by
    rw [hmode, Mode.ofToken_token]
    rfl
  have hreadRelay : groupToken e (RelayType.ofToken e.relay) = .ok relay := by
    rw [hrelay, RelayType.ofToken_token]
    rfl
  have hpush : e.source.isSome → mode = .push := fun hs =>
    Mode.token_inj (hmode.symm.trans (he.push (Option.isSome_iff_ne_none.1 hs)))
  let e₁ : GroupEntry := { name := e.name, mode := mode.token, relay := relay.token }
  unfold applyGroup
  refine reaches_bind (reaches_lift hreadMode) fun _ => reaches_of_fact fun heq => ?_
  rw [heq]
  refine reaches_bind (reaches_lift hreadRelay) fun _ => reaches_of_fact fun heq => ?_
  rw [heq]
  dsimp only
  split
  · rename_i hmisplaced
    obtain ⟨hs, hne⟩ := Bool.and_eq_true_iff.1 hmisplaced
    exact absurd (hpush hs) (of_decide_eq_true hne)
  refine reaches_bind (Q := fun _ => Drafted s es gs e₁ mode)
    (reaches_modify fun n hg => hg.addGroup hn mode relay) fun _ => ?_
  refine reaches_bind (Q := fun _ => Drafted s es gs { e with source := none, members := [] } mode)
    (reaches_change fun n hd => ?_) fun _ => ?_
  · obtain ⟨m, hm, hd⟩ := hd.setGroupPolicy e.policy e.tunnel e.resequence
    rw [hmode, hrelay]
    exact ⟨m, hm, hd⟩
  refine reaches_bind (applySource_reaches hplain he hmode) fun _ => ?_
  intro n hd
  obtain ⟨a, m, hrun, g, -, hg⟩ := applyMembers_reaches hplain he n hd
  exact ⟨a, m, hrun, hg.toShows, hg.draft.lists⟩

end Entry

end MulticastRelay.Config
