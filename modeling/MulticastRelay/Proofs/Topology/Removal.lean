import MulticastRelay.Proofs.Topology.Pass

/-! # What removals take away

The owner of each edge after an interface or a group was removed, from the owner before. A group that
goes takes the edges it owns with it. Another group that calls for the same pair, and met it as a
conflict, is left without the edge until its next pass.
-/
namespace MulticastRelay.Topology

variable {t u : Topology} {id x y : InterfaceId} {gid o : GroupId} {g k : Group} {i : Interface}

/-- Where interfaces hold one associate for each target, an edge is what its source holds. -/
theorem Intact.owner?_eq (h : Intact t) :
    t.owner? x y = some o ↔ ∃ i ∈ t.interfaces, i.id = x ∧ ⟨o, y⟩ ∈ i.associates := by
  have hfound : ∀ i ∈ t.interfaces, i.owner? y = some o ↔ ⟨o, y⟩ ∈ i.associates := by
    intro i hi
    unfold Interface.owner?
    rw [Option.map_eq_some_iff]
    constructor
    · rintro ⟨a, ha, rfl⟩
      obtain ⟨hm, rfl⟩ : a ∈ i.associates ∧ a.target = y := Keyed.get?_mem ha
      exact hm
    · exact fun hm => ⟨⟨o, y⟩, (Keyed.get?_eq_some_iff (h.moored i hi).single).2 ⟨hm, rfl⟩, rfl⟩
  unfold owner?
  rw [Option.bind_eq_some_iff]
  constructor
  · rintro ⟨i, hi, ho⟩
    obtain ⟨hm, hid⟩ := h.interface?_eq.1 hi
    exact ⟨i, hm, hid, (hfound i hm).1 ho⟩
  · rintro ⟨i, hm, hid, ho⟩
    exact ⟨i, h.interface?_eq.2 ⟨hm, hid⟩, (hfound i hm).2 ho⟩

/-- The edges left where interfaces went, and associates of those that stay. -/
theorem Intact.owner?_prune (hu : Intact u) {p : Interface → Bool}
    {q : Associate → Bool}
    (he : u.interfaces = (t.interfaces.filter p).map fun i =>
      { i with associates := i.associates.filter q }) :
    u.owner? x y = some o ↔
      ∃ i ∈ t.interfaces, i.id = x ∧ ⟨o, y⟩ ∈ i.associates ∧ p i = true ∧ q ⟨o, y⟩ = true := by
  rw [hu.owner?_eq, he]
  constructor
  · rintro ⟨_, hm, rfl, ho⟩
    obtain ⟨j, hj, rfl⟩ := List.mem_map.1 hm
    obtain ⟨hj, hp⟩ := List.mem_filter.1 hj
    obtain ⟨ho, hq⟩ := List.mem_filter.1 ho
    exact ⟨j, hj, rfl, ho, hp, hq⟩
  · rintro ⟨j, hj, rfl, ho, hp, hq⟩
    exact ⟨_, List.mem_map_of_mem (List.mem_filter.2 ⟨hj, hp⟩), rfl, List.mem_filter.2 ⟨ho, hq⟩⟩

/-! ## Interfaces -/

/-- With an interface go the edges from it and towards it, and those of the groups made for it. -/
theorem Intact.owner?_removeInterface (h : Intact t) (hi : t.interface? id = some i) :
    (t.removeInterface id).owner? x y = some o ↔
      t.owner? x y = some o ∧ o ∉ t.derivedGroups id ∧ x ≠ id ∧ y ≠ id := by
  rw [(h.removeInterface id).owner?_prune (by rw [removeInterface_eq hi]; rfl), h.owner?_eq]
  simp only [decide_eq_true_eq]
  constructor
  · rintro ⟨j, hj, rfl, ho, hne, hgone, hy⟩
    exact ⟨⟨j, hj, rfl, ho⟩, hgone, hne, hy⟩
  · rintro ⟨⟨j, hj, rfl, ho⟩, hgone, hne, hy⟩
    exact ⟨j, hj, rfl, ho, hne, hgone, hy⟩

/-- The groups made for the interface go, and it leaves the others. -/
theorem mem_groups_removeInterface (hi : t.interface? id = some i) :
    k ∈ (t.removeInterface id).groups ↔
      ∃ g ∈ t.groups, g.id ∉ t.derivedGroups id ∧ g.removeMember id = k := by
  rw [removeInterface_eq hi]
  simp only [List.mem_map, List.mem_filter, decide_eq_true_eq, and_assoc]

theorem groupsOf_isEmpty_iff :
    (t.groupsOf id).isEmpty = true ↔ ∀ g ∈ t.groups, id ∉ g.members := by
  rw [List.isEmpty_iff]
  constructor
  · intro he g hg hm
    have hin : g.id ∈ (t.groups.filter (·.hasMember id)).map (·.id) :=
      List.mem_map_of_mem (List.mem_filter.2 ⟨hg, by simpa [Group.hasMember] using hm⟩)
    exact Ascending.ofList_ne_nil (List.ne_nil_of_mem hin) he
  · intro hn
    have hfilter : t.groups.filter (·.hasMember id) = [] := List.filter_eq_nil_iff.2 fun g hg => by
      simpa [Group.hasMember] using hn g hg
    unfold groupsOf
    rw [hfilter]
    rfl

/-- An interface that is in no group goes without a trace in any. -/
theorem Intact.removeInterface_orphan (h : Intact t) (hi : t.interface? id = some i)
    (ho : ∀ g ∈ t.groups, id ∉ g.members) :
    t.derivedGroups id = [] ∧ (t.removeInterface id).groups = t.groups := by
  have hsource : ∀ g ∈ t.groups, g.source ≠ some id := fun g hg hs =>
    ho g hg ((h.peopled g hg).sourced id hs)
  have hderived : t.derivedGroups id = [] := by
    unfold derivedGroups
    rw [List.map_eq_nil_iff, List.filter_eq_nil_iff]
    intro g hg
    simp [hsource g hg]
  have hkeep : ∀ g ∈ t.groups, g.removeMember id = g := by
    intro g hg
    have hm : g.members.filter (· ≠ id) = g.members := List.filter_eq_self.2 fun m hm =>
      decide_eq_true fun he => ho g hg (he ▸ hm)
    unfold Group.removeMember
    rw [hm, if_neg (hsource g hg)]
  refine ⟨hderived, ?_⟩
  rw [removeInterface_eq hi, hderived]
  simp only [List.not_mem_nil, not_false_eq_true, decide_true, List.filter_true]
  rw [List.map_congr_left hkeep, List.map_id']

theorem Intact.removeOrphans_spec (h : Intact t) (ids : List InterfaceId) :
    (t.removeOrphans ids).2.groups = t.groups ∧
      (∀ m ∈ (t.removeOrphans ids).1, ∀ g ∈ t.groups, m ∉ g.members) ∧
      ∀ x y o, (t.removeOrphans ids).2.owner? x y = some o ↔
        t.owner? x y = some o ∧ x ∉ (t.removeOrphans ids).1 ∧ y ∉ (t.removeOrphans ids).1 := by
  induction ids generalizing t with
  | nil => exact ⟨rfl, fun m hm => absurd hm List.not_mem_nil, fun x y o => by simp [Topology.removeOrphans]⟩
  | cons id ids ih =>
    unfold Topology.removeOrphans
    dsimp only
    by_cases hcond : ((t.groupsOf id).isEmpty && (t.interface? id).isSome) = true
    · have hr : t.removeIfOrphan id = (true, t.removeInterface id) := by
        unfold removeIfOrphan
        rw [if_pos hcond]
      obtain ⟨he, hs⟩ := Bool.and_eq_true_iff.1 hcond
      obtain ⟨i, hi⟩ := Option.isSome_iff_exists.1 hs
      have horphan := groupsOf_isEmpty_iff.1 he
      obtain ⟨hderived, hgroups⟩ := h.removeInterface_orphan hi horphan
      obtain ⟨hg, hgone, ho⟩ := ih (h.removeInterface id)
      rw [hr]
      simp only [if_true]
      refine ⟨hg.trans hgroups, fun m hm => ?_, fun x y o => ?_⟩
      · rcases List.mem_cons.1 hm with rfl | hm
        · exact horphan
        · exact hgroups ▸ hgone m hm
      · rw [ho, h.owner?_removeInterface hi, hderived]
        simp only [List.not_mem_nil, not_false_eq_true, true_and, List.mem_cons, not_or, and_assoc]
        exact and_congr_right fun _ => by tauto
    · have hr : t.removeIfOrphan id = (false, t) := by
        unfold removeIfOrphan
        rw [if_neg hcond]
      rw [hr]
      exact ih h

/-! ## Groups -/

theorem Intact.owner?_dropGroup (h : Intact t) (hg : t.group? gid = some g) :
    (t.dropGroup gid).owner? x y = some o ↔ t.owner? x y = some o ∧ o ≠ gid := by
  have he : (t.dropGroup gid).interfaces = (t.interfaces.filter fun _ => true).map (·.dropOwned gid) := by
    rw [List.filter_true, dropGroup_eq hg]
  rw [(h.dropGroup gid).owner?_prune he, h.owner?_eq]
  simp only [decide_eq_true_eq, true_and]
  constructor
  · rintro ⟨j, hj, rfl, ho, hne⟩
    exact ⟨⟨j, hj, rfl, ho⟩, hne⟩
  · rintro ⟨⟨j, hj, rfl, ho⟩, hne⟩
    exact ⟨j, hj, rfl, ho, hne⟩

/-- A group goes with the edges it owned, and the interfaces it leaves in no group go too. -/
theorem Intact.removeGroup_spec (h : Intact t) (hg : t.group? gid = some g) :
    ∃ gone u, t.removeGroup gid = .ok (gone, u) ∧ Intact u ∧
      (∀ k, k ∈ u.groups ↔ k ∈ t.groups ∧ k.id ≠ gid) ∧
      (∀ m ∈ gone, ∀ k ∈ u.groups, m ∉ k.members) ∧
      ∀ x y o, u.owner? x y = some o ↔
        t.owner? x y = some o ∧ o ≠ gid ∧ x ∉ gone ∧ y ∉ gone := by
  have hm := h.matchers (h.filed.removeGroup g.name)
  have hr : t.removeGroup gid = .ok (({ t with matchers := t.matchers.removeGroup g.name }.dropGroup
      gid).removeOrphans g.members) := by
    unfold Topology.removeGroup
    rw [hg]
  obtain ⟨hgroups, hgone, howner⟩ := (hm.dropGroup gid).removeOrphans_spec g.members
  refine ⟨_, _, hr, h.removeGroup hr, fun k => ?_, ?_, fun x y o => ?_⟩
  · rw [hgroups]
    exact mem_groups_dropGroup
  · rw [hgroups]
    exact hgone
  · rw [howner, hm.owner?_dropGroup hg, and_assoc]
    rfl

/-- Every pair that a group calls for has an edge, whoever owns it. -/
def Connected (t : Topology) : Prop :=
  ∀ g ∈ t.groups, ∀ e ∈ g.wanted, ∃ o, t.owner? e.1 e.2 = some o

theorem connected_iff_edges :
    Connected t ↔ ∀ g ∈ t.groups, ∀ e ∈ g.edges, (t.owner? e.1 e.2).isSome = true := by
  unfold Connected
  simp only [Group.mem_edges_iff, Option.isSome_iff_exists]

theorem Intact.associate_joins (h : Intact t) (hg : t.group? gid = some g) {e : Edge}
    (he : e ∈ g.wanted) : ∃ o, (t.associate gid).2.owner? e.1 e.2 = some o := by
  rw [h.owner?_associate hg]
  cases ho : t.owner? e.1 e.2 with
  | none => exact ⟨gid, if_pos ⟨rfl, Group.mem_edges_iff.2 he⟩⟩
  | some o => exact ⟨o, if_neg (by simp)⟩

/-- A group that is removed leaves every other group connected but for the pairs it owned, which the
next pass of a group that calls for them joins again. -/
theorem removeGroup_connected_iff (h : Reachable t) (hc : Connected t)
    (hg : t.group? gid = some g) :
    ∃ gone u, t.removeGroup gid = .ok (gone, u) ∧
      (∀ k, k ∈ u.groups ↔ k ∈ t.groups ∧ k.id ≠ gid) ∧
      (∀ k ∈ u.groups, ∀ e ∈ k.wanted,
        (t.owner? e.1 e.2 ≠ some gid → u.owner? e.1 e.2 = t.owner? e.1 e.2) ∧
        (t.owner? e.1 e.2 = some gid → u.owner? e.1 e.2 = none) ∧
        ∃ o, (u.associate k.id).2.owner? e.1 e.2 = some o) ∧
      (Connected u ↔ ∀ k ∈ u.groups, ∀ e ∈ k.wanted, t.owner? e.1 e.2 ≠ some gid) := by
  obtain ⟨gone, u, hr, hu, hmem, hgone, howner⟩ := h.intact.removeGroup_spec hg
  -- The ends of a pair that a remaining group calls for are its members, so they stay.
  have hstay : ∀ k ∈ u.groups, ∀ e ∈ k.wanted, e.1 ∉ gone ∧ e.2 ∉ gone := by
    intro k hk e he
    have hin := Group.wanted_members (hu.peopled k hk).sourced he
    exact ⟨fun hx => hgone _ hx k hk hin.1, fun hy => hgone _ hy k hk hin.2⟩
  have hkept : ∀ k ∈ u.groups, ∀ e ∈ k.wanted, t.owner? e.1 e.2 ≠ some gid →
      ∃ o, t.owner? e.1 e.2 = some o ∧ u.owner? e.1 e.2 = some o := by
    intro k hk e he hne
    obtain ⟨o, ho⟩ := hc k ((hmem k).1 hk).1 e he
    have hog : o ≠ gid := fun heq => hne (heq ▸ ho)
    exact ⟨o, ho, (howner _ _ o).2 ⟨ho, hog, hstay k hk e he⟩⟩
  have hlost : ∀ e : Edge, t.owner? e.1 e.2 = some gid → u.owner? e.1 e.2 = none := by
    intro e ho
    rw [Option.eq_none_iff_forall_ne_some]
    intro o huo
    obtain ⟨hto, hne, -⟩ := (howner _ _ o).1 huo
    exact hne (Option.some.inj (hto.symm.trans ho))
  refine ⟨gone, u, hr, hmem, fun k hk e he => ⟨fun hne => ?_, hlost e, ?_⟩, ?_⟩
  · obtain ⟨o, hto, huo⟩ := hkept k hk e he hne
    exact huo.trans hto.symm
  · exact hu.associate_joins (hu.group?_eq.2 ⟨hk, rfl⟩) he
  · constructor
    · intro hcu k hk e he ho
      obtain ⟨o, huo⟩ := hcu k hk e he
      rw [hlost e ho] at huo
      cases huo
    · intro hno k hk e he
      obtain ⟨o, -, huo⟩ := hkept k hk e he (hno k hk e he)
      exact ⟨o, huo⟩

/-- The two meshes of the overlap once both had their pass. -/
def joined : Topology := next (overlap.foldl next empty) (.associate ⟨2⟩)

theorem joined_reachable : Reachable joined := .next _ (reachable_foldl .empty overlap)

theorem joined_connected : Connected joined :=
  connected_iff_edges.2 (by decide +kernel)

/-- The first mesh owned the two pairs that the meshes share, so without it the second one lacks
them. -/
theorem joined_without_first :
    ∃ gone u, joined.removeGroup ⟨1⟩ = .ok (gone, u) ∧ u.owner? ⟨1⟩ ⟨2⟩ = none ∧
      u.owner? ⟨1⟩ ⟨3⟩ = some ⟨2⟩ ∧ ¬Connected u := by
  have hsome : (joined.group? ⟨1⟩).isSome = true := by decide +kernel
  obtain ⟨g, hg⟩ := Option.isSome_iff_exists.1 hsome
  obtain ⟨gone, u, hu, hmem, hpairs, hiff⟩ :=
    removeGroup_connected_iff joined_reachable joined_connected hg
  have hsecond : ∃ k ∈ joined.groups, k.id ≠ ⟨1⟩ ∧ (⟨1⟩, ⟨2⟩) ∈ k.edges ∧ (⟨1⟩, ⟨3⟩) ∈ k.edges := by
    decide +kernel
  obtain ⟨k, hk, hne, hshared, hown⟩ := hsecond
  have hk := (hmem k).2 ⟨hk, hne⟩
  have hshared := Group.mem_edges_iff.1 hshared
  have hfirst : joined.owner? ⟨1⟩ ⟨2⟩ = some ⟨1⟩ := by decide +kernel
  have hthird : joined.owner? ⟨1⟩ ⟨3⟩ = some ⟨2⟩ := by decide +kernel
  refine ⟨gone, u, hu, (hpairs k hk _ hshared).2.1 hfirst, ?_, fun hc => ?_⟩
  · refine ((hpairs k hk _ (Group.mem_edges_iff.1 hown)).1 ?_).trans hthird
    rw [hthird]
    decide
  · exact hiff.1 hc k hk _ hshared hfirst

/-- Removing a group can disconnect what another group still calls for. -/
theorem removeGroup_can_disconnect :
    ¬∀ (t : Topology) (gid : GroupId) (gone : List InterfaceId) (u : Topology), Reachable t →
      Connected t → t.removeGroup gid = .ok (gone, u) → Connected u := by
  intro hall
  have hsome : (joined.group? ⟨1⟩).isSome = true := by decide +kernel
  obtain ⟨g, hg⟩ := Option.isSome_iff_exists.1 hsome
  obtain ⟨gone, u, hr, -, hmem, -, howner⟩ := joined_reachable.intact.removeGroup_spec hg
  have hsecond : ∃ k ∈ joined.groups, k.id ≠ ⟨1⟩ ∧ (⟨1⟩, ⟨2⟩) ∈ k.edges := by decide +kernel
  obtain ⟨k, hk, hne, he⟩ := hsecond
  have hc := hall joined ⟨1⟩ gone u joined_reachable joined_connected hr
  obtain ⟨o, ho⟩ := hc k ((hmem k).2 ⟨hk, hne⟩) _ (Group.mem_edges_iff.1 he)
  obtain ⟨hto, hog, -⟩ := (howner _ _ o).1 ho
  have hfirst : joined.owner? ⟨1⟩ ⟨2⟩ = some ⟨1⟩ := by decide +kernel
  exact hog (Option.some.inj (hto.symm.trans hfirst))

end MulticastRelay.Topology
