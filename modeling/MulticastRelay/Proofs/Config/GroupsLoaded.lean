import MulticastRelay.Proofs.Config.Loading
import MulticastRelay.Proofs.Topology.Conflicts

/-! # Groups loaded

A group entry is applied without an error to any node whose devices open, if its words can be read and
only a push group is given a source. Its group is there from then on, so a pass or a scan can only end
well or in a conflict, and conflicts are tolerated. The other way round, an entry with a source that
was applied is that of a push group.
-/
namespace MulticastRelay

namespace Node

variable {n m : Node} {a b : Station} {id : InterfaceId}

/-! ## Devices that open -/

/-- To open a device makes its host no pickier. -/
theorem attachAll_refused {host final : Host} {r : Except NodeError Unit} (devices : List String)
    (h : attachAll a host devices = (r, b, final)) : final.refused = host.refused := by
  induction devices generalizing a host with
  | nil =>
    cases h
    rfl
  | cons device rest ih =>
    unfold attachAll at h
    cases ho : host.open? device with
    | error e =>
      rw [ho] at h
      cases h
      rfl
    | ok p =>
      obtain ⟨d, next⟩ := p
      rw [ho] at h
      have hnext : next.refused = host.refused := by
        unfold Host.open? at ho
        split at ho
        · cases ho
        · cases ho
          rfl
      exact (ih h).trans hnext

theorem openDevices_refused (n : Node) (id : InterfaceId) :
    (n.openDevices id).2.host.refused = n.host.refused := by
  unfold openDevices
  split
  · rfl
  · rename_i i _
    have he := ensureStation_host n id i.name
    dsimp only
    split
    · rw [he]
    · split
      · rw [he]
      · exact (attachAll_refused _ rfl).trans (congrArg Host.refused he)

theorem tryOpenAll_refused (ls : List Link) (n : Node) :
    (ls.foldl (fun n l => n.tryOpenDevices ⟨l.index⟩) n).host.refused = n.host.refused := by
  induction ls generalizing n with
  | nil => rfl
  | cons l ls ih => exact (ih _).trans (openDevices_refused n ⟨l.index⟩)

end Node

namespace Config

open MulticastRelay.Topology Applying

variable {n m : Node} {e : GroupEntry} {g : Group} {mode : Mode} {name member stem : String}
  {role : Role} {t : Topology}

/-- The words of an entry can be read, and a source is given to a push group alone. -/
structure GroupEntry.Loadable (e : GroupEntry) : Prop where
  mode : ∃ mode, Mode.ofToken e.mode = .ok mode
  relay : ∃ relay, RelayType.ofToken e.relay = .ok relay
  source : e.source.isSome → e.modeRead = .push

/-- A node in step whose devices open. -/
structure Ready (n : Node) : Prop where
  aligned : n.Aligned []
  willing : n.host.refused = []

/-- The node has a group of this name and mode. -/
structure Hosting (name : String) (mode : Mode) (n : Node) : Prop extends Ready n where
  group : ∃ g ∈ n.topology.groups, g.name = name ∧ g.mode = mode

theorem Hosting.groupId?_eq (h : Hosting name mode n) (hg : g ∈ n.topology.groups)
    (hn : g.name = name) : n.groupId? name = .ok g.id :=
  Node.groupId?_of_named (h.aligned.intact.groupNamed?_eq.2 ⟨hg, hn⟩)

/-! ## The group itself -/

theorem addGroup_group (h : Intact t) (name : String) (mode : Mode) (relay : RelayType) :
    ∃ g ∈ (t.addGroup name mode relay).2.groups, g.name = name ∧ g.mode = mode := by
  unfold Topology.addGroup
  cases hg : t.groupNamed? name with
  | none =>
    dsimp only
    exact ⟨_, (mem_insertGroup h.unissued).2 (.inl rfl), rfl, rfl⟩
  | some g =>
    obtain ⟨hmem, hn⟩ := h.groupNamed?_eq.1 hg
    dsimp only
    split
    · rename_i hsame
      exact ⟨g, hmem, hn, hsame.1⟩
    · refine ⟨_, List.mem_map_of_mem hmem, ?_⟩
      rw [if_pos rfl]
      unfold Group.setMode
      split <;> exact ⟨hn, rfl⟩

theorem Ready.addGroup (h : Ready n) (name : String) (mode : Mode) (relay : RelayType) :
    Hosting name mode (n.addGroup name mode relay).2 where
  aligned := h.aligned.of_sameNames (h.aligned.intact.addGroup name mode relay)
    (addGroup_sameNames _ name mode relay)
  willing := h.willing
  group := addGroup_group h.aligned.intact name mode relay

theorem Hosting.setGroupPolicy (h : Hosting name mode n) (policy : GroupPolicy)
    (tunnel resequence : Bool) :
    ∃ m, n.setGroupPolicy name policy tunnel resequence = .ok m ∧ Hosting name mode m := by
  obtain ⟨g, hg, hn, hmode⟩ := h.group
  let f : Group → Group := fun g => { g with policy, tunnel, resequence }
  have hm : n.setGroupPolicy name policy tunnel resequence =
      .ok { n with topology := n.topology.modifyGroup g.id f } := by
    simp [Node.setGroupPolicy, h.groupId?_eq hg hn, bind, Except.bind, pure, Except.pure, f]
  refine ⟨_, hm, ⟨Node.setGroupPolicy_aligned h.aligned hm, h.willing⟩, ?_⟩
  refine ⟨_, List.mem_map_of_mem hg, ?_⟩
  rw [if_pos rfl]
  exact ⟨hn, hmode⟩

/-! ## Members -/

theorem Hosting.addConcreteMember (h : Hosting name mode n) (hg : g ∈ n.topology.groups)
    (hn : g.name = name) (hmode : g.mode = mode) (member : String) (role : Role) :
    Tolerated (n.addConcreteMember g.id member role).1 ∧
      Hosting name mode (n.addConcreteMember g.id member role).2 := by
  let x := (n.addInterface member).1
  let k := (n.addInterface member).2
  have hk : k.Aligned [] := Node.addInterface_aligned h.aligned member
  have hwilling : k.host.refused = [] := by
    rw [Node.addInterface_host]
    exact h.willing
  have hgk : g ∈ k.topology.groups := by
    rw [addInterface_groups]
    exact hg
  have hhas : k.topology.Has x := by
    rw [Node.addInterface_topology]
    exact h.aligned.intact.addInterface_has _ _
  obtain ⟨i, hi⟩ := has_iff.1 hhas
  obtain ⟨hid, hsame⟩ := joinAs_same role x g
  let u := k.topology.modifyGroup g.id (joinAs role x)
  have hu : k.topology.addMember g.id x role = .ok u := by
    unfold Topology.addMember
    rw [hi, hk.intact.group?_eq.2 ⟨hgk, rfl⟩]
    rfl
  have hjoined : Node.Aligned { k with topology := u } [] :=
    hk.of_sameNames (hk.intact.addMember hu) (addMember_sameNames hu)
  have hgu : joinAs role x g ∈ u.groups := by
    have hin := List.mem_map_of_mem (f := fun k => if k.id = g.id then joinAs role x k else k) hgk
    rwa [if_pos rfl] at hin
  obtain ⟨hok, -⟩ := Redresses.openDevices hjoined hwilling x
  let v := (Node.openDevices { k with topology := u } x).2
  have hv : v.topology = u := (Node.openDevices_graph { k with topology := u } x).topology
  have hrun := addConcreteMember_eq (n := n) (k := k) (v := v) (x := x) rfl hu (Prod.ext hok rfl)
  have haligned := Node.addConcreteMember_aligned h.aligned g.id member role
  rw [hrun] at haligned ⊢
  have hpass := associate_tolerated hjoined.intact hgu
  rw [hid, ← hv] at hpass
  refine ⟨hpass, ⟨haligned, ?_⟩, joinAs role x g, ?_, ?_, hsame.trans hmode⟩
  · exact (Node.openDevices_refused { k with topology := u } x).trans hwilling
  · have hgroups : (v.topology.associate g.id).2.groups = u.groups :=
      (associate_groups v.topology g.id).trans (congrArg Topology.groups hv)
    change joinAs role x g ∈ (v.topology.associate g.id).2.groups
    rw [hgroups]
    exact hgu
  · unfold joinAs
    split <;> exact hn

/-- A matcher for a group that is there is filed, and served. -/
theorem addMatcher_served (stem : String) (h : Intact t) (hg : g ∈ t.groups)
    (hpush : role = .source → g.mode = .push) :
    ∃ r u, t.addMatcher g.id stem role = .ok (r, u) ∧ u.Served r ∧
      ∃ k ∈ u.groups, k.name = g.name ∧ k.mode = g.mode := by
  let r : Matcher := ⟨stem, g.name, role, g.mode, g.relayType⟩
  let v := if role = .source ∧ g.mode = .push then t.modifyGroup g.id Group.makeTemplate else t
  have hm : t.addMatcher g.id stem role =
      .ok (r, { v with matchers := (v.matchers.insert r).2 }) := by
    unfold Topology.addMatcher
    rw [h.group?_eq.2 ⟨hg, rfl⟩]
  have hk : ∃ k ∈ v.groups, k.name = g.name ∧ k.mode = g.mode := by
    by_cases hs : role = .source ∧ g.mode = .push
    · have hv : v = t.modifyGroup g.id Group.makeTemplate := if_pos hs
      rw [hv]
      refine ⟨_, List.mem_map_of_mem hg, ?_⟩
      rw [if_pos rfl]
      exact ⟨rfl, rfl⟩
    · have hv : v = t := if_neg hs
      rw [hv]
      exact ⟨g, hg, rfl, rfl⟩
  obtain ⟨k, hk, hkn, hkm⟩ := hk
  exact ⟨r, _, hm, ⟨k, hk, hkn, fun hr => hkm.trans (hpush hr)⟩, k, hk, hkn, hkm⟩

theorem Hosting.addWildcardMember (h : Hosting name mode n) (hg : g ∈ n.topology.groups)
    (hn : g.name = name) (hmode : g.mode = mode) (hpush : role = .source → mode = .push)
    (stem : String) :
    Tolerated (n.addWildcardMember g.id stem role).1 ∧
      Hosting name mode (n.addWildcardMember g.id stem role).2 := by
  obtain ⟨r, u, hm, hserved, k, hk, hkn, hkm⟩ :=
    addMatcher_served stem h.aligned.intact hg fun hr => hmode.trans (hpush hr)
  have haligned := Node.addWildcardMember_aligned h.aligned g.id stem role
  have hu := h.aligned.intact.addMatcher hm
  unfold Node.addWildcardMember at haligned ⊢
  rw [hm] at haligned ⊢
  dsimp only at haligned ⊢
  refine ⟨?_, ⟨haligned, ?_⟩, ?_⟩
  · cases hr : (u.matchLinks r ((({ n with topology := u } : Node).sortedLinks.filter
        fun l => r.accepts l.name).map ({ n with topology := u } : Node).normalize)).1 with
    | ok bound => exact .inl ⟨bound, rfl⟩
    | error e =>
      obtain ⟨edge, owner, count, rfl⟩ := hserved.matchLinks_error hu hr
      exact .inr ⟨edge, owner, count, rfl⟩
  · exact (Node.tryOpenAll_refused _ _).trans h.willing
  · rw [(Node.syncCapture_graph _).topology, (Node.tryOpenAll_graph _ _).topology]
    dsimp only
    rw [matchLinks_snd]
    obtain ⟨l, hl, hp⟩ := (hu.resolveAll_rebound _).kept k hk
    exact ⟨l, hl, hp.name.trans (hkn.trans hn), hp.mode.trans (hkm.trans hmode)⟩

theorem Hosting.addMember (h : Hosting name mode n) (hpush : role = .source → mode = .push)
    (member : String) :
    Tolerated (n.addMember name member role).1 ∧
      Hosting name mode (n.addMember name member role).2 := by
  obtain ⟨g, hg, hn, hmode⟩ := h.group
  unfold Node.addMember
  rw [h.groupId?_eq hg hn]
  dsimp only
  split
  · exact h.addWildcardMember hg hn hmode hpush _
  · exact h.addConcreteMember hg hn hmode member role

/-! ## Entries -/

theorem applyGroup_loads (he : e.Loadable) :
    Reaches Ready (applyGroup e) fun _ => Ready := by
  obtain ⟨mode, hmode⟩ := he.mode
  obtain ⟨relay, hrelay⟩ := he.relay
  have hreadMode : groupToken e (Mode.ofToken e.mode) = .ok mode := by
    rw [hmode]
    rfl
  have hreadRelay : groupToken e (RelayType.ofToken e.relay) = .ok relay := by
    rw [hrelay]
    rfl
  have hpush : e.source.isSome → mode = .push := fun hs =>
    (modeRead_eq hmode).symm.trans (he.source hs)
  unfold applyGroup
  refine reaches_bind (reaches_lift hreadMode) fun _ => reaches_of_fact fun heq => ?_
  rw [heq]
  refine reaches_bind (reaches_lift hreadRelay) fun _ => reaches_of_fact fun heq => ?_
  rw [heq]
  dsimp only
  split
  · rename_i hmisplaced
    obtain ⟨hs, hne⟩ := Bool.and_eq_true_iff.1 hmisplaced
    exact absurd (hpush hs) (of_decide_eq_true hne)
  refine reaches_bind (Q := fun _ => Hosting e.name mode)
    (reaches_modify fun n hn => hn.addGroup e.name mode relay) fun _ => ?_
  refine reaches_bind (Q := fun _ => Hosting e.name mode)
    (reaches_change fun n hn => hn.setGroupPolicy e.policy e.tunnel e.resequence) fun _ => ?_
  refine reaches_bind (Q := fun _ => Hosting e.name mode)
    (reaches_forM (I := fun _ => Hosting e.name mode) fun done s rest hsplit =>
      applyMember_reaches fun n hn => hn.addMember (fun _ => hpush ?_) s) fun _ => ?_
  · cases hs : e.source with
    | none => simp [hs] at hsplit
    | some w => rfl
  intro n hn
  obtain ⟨a, m, hrun, hm⟩ := reaches_forM (l := e.members) (I := fun _ => Hosting e.name mode)
    (f := (applyMember e.name · .destination)) (fun _ s _ _ => applyMember_reaches
      fun n hn => hn.addMember (fun hr => by cases hr) s) n hn
  exact ⟨a, m, hrun, hm.toReady⟩

theorem applyGroups_loads {es : List GroupEntry} (he : ∀ e ∈ es, e.Loadable) :
    Reaches Ready (es.forM applyGroup) fun _ => Ready :=
  reaches_forM (I := fun _ => Ready) fun _ e _ hsplit =>
    applyGroup_loads (he e (hsplit ▸ List.mem_append_right _ List.mem_cons_self))

/-- An entry that is applied has a source only in push mode. -/
theorem applyGroup_push {P : Node → Prop} :
    Leads P (applyGroup e) fun _ _ => e.source.isSome → e.modeRead = .push := by
  unfold applyGroup
  refine leads_bind (leads_lift (Q := fun a _ => e.modeRead = a) fun a n hr _ =>
    modeRead_eq (ofToken_of_groupToken hr)) fun mode => ?_
  refine leads_bind (leads_lift fun _ _ _ hn => hn) fun relay => ?_
  intro n a m hmode hr
  dsimp only at hr
  split at hr
  · cases hr
  · rename_i hsource
    intro hs
    by_contra hne
    exact hsource (by simp [hs, ← hmode, hne])

theorem applyGroups_push {es : List GroupEntry} {P : Node → Prop} :
    Leads P (es.forM applyGroup) fun _ _ => ∀ e ∈ es, e.source.isSome → e.modeRead = .push := by
  have hloop := leads_forM (l := es) (f := applyGroup)
    (I := fun done _ => ∀ e ∈ done, e.source.isSome → e.modeRead = .push) ?_
  · intro n a m _ hr
    exact hloop n a m (fun e he => absurd he List.not_mem_nil) hr
  · intro done e rest _ n a m hdone hr f hf
    rcases List.mem_append.1 hf with hf | hf
    · exact hdone f hf
    · cases List.mem_singleton.1 hf
      exact applyGroup_push (P := fun _ => True) n a m trivial hr

end Config
end MulticastRelay
