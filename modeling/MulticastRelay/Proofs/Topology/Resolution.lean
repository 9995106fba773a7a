import MulticastRelay.Proofs.Topology.Operations

/-! # What resolution draws

A link bound as destination joins the whole family of its group, and bound as source it gets an
instance of the template. Either way no group stays pending, and the interface stays.
-/
namespace MulticastRelay

/-- A group that gained at most one member. -/
structure Group.Gains (i : InterfaceId) (p : Prop) (g k : Group) : Prop where
  id : k.id = g.id
  name : k.name = g.name
  mode : k.mode = g.mode
  isTemplate : k.isTemplate = g.isTemplate
  source : k.source = g.source
  members : ∀ m, m ∈ k.members ↔ m ∈ g.members ∨ p ∧ m = i

namespace Topology

variable {t u : Topology} {id : InterfaceId} {g k : Group} {base name x : String}
  {groups : List GroupId}
  {F : Figure} {m : Matcher} {link : Link} {p : Prop}

/-! ## Joining -/

def enroll (id : InterfaceId) (groups : List GroupId) (g : Group) : Group :=
  groups.foldl
    (fun g gid => if g.id = gid then if g.source = some id then g else g.insertMember id else g) g

theorem joinAll_eq (groups : List GroupId) (t : Topology) :
    t.joinAll groups id = t.regroup (enroll id groups) := by
  induction groups generalizing t with
  | nil =>
    have : t.groups.map (enroll id []) = t.groups := List.map_id _
    unfold regroup
    rw [this]
    rfl
  | cons gid groups ih =>
    have hs : t.joinAll (gid :: groups) id =
        (t.modifyGroup gid fun g =>
          if g.source = some id then g else g.insertMember id).joinAll groups id :=
      rfl
    rw [hs, ih, modifyGroup_eq]
    unfold regroup
    simp only [List.map_map]
    rfl

theorem enroll_gains (groups : List GroupId) (g : Group) :
    Group.Gains id (g.id ∈ groups ∧ g.source ≠ some id) g (enroll id groups g) := by
  induction groups generalizing g with
  | nil => exact ⟨rfl, rfl, rfl, rfl, rfl, fun m => by simp [enroll]⟩
  | cons gid groups ih =>
    by_cases hin : g.id = gid ∧ g.source ≠ some id
    · obtain ⟨hid, hs⟩ := hin
      have ha : enroll id (gid :: groups) g = enroll id groups (g.insertMember id) := by
        simp [enroll, hid, hs]
      rw [ha]
      have h := ih (g.insertMember id)
      refine ⟨h.id, h.name, h.mode, h.isTemplate, h.source, fun m => ?_⟩
      rw [h.members m, Group.mem_insertMember]
      simp only [hid, List.mem_cons, true_or, true_and]
      constructor
      · rintro ((rfl | hm) | ⟨-, rfl⟩)
        · exact .inr ⟨hs, rfl⟩
        · exact .inl hm
        · exact .inr ⟨hs, rfl⟩
      · rintro (hm | ⟨-, rfl⟩)
        · exact .inl (.inr hm)
        · exact .inl (.inl rfl)
    · have ha : enroll id (gid :: groups) g = enroll id groups g := by
        unfold enroll
        rw [List.foldl_cons]
        by_cases hid : g.id = gid
        · have hs : g.source = some id := by
            by_contra hs
            exact hin ⟨hid, hs⟩
          simp [hid, hs]
        · simp [hid]
      rw [ha]
      have h := ih g
      refine ⟨h.id, h.name, h.mode, h.isTemplate, h.source, fun m => ?_⟩
      rw [h.members m, List.mem_cons]
      refine or_congr_right (and_congr_left fun _ => ⟨fun ⟨hg, hs⟩ => ⟨.inr hg, hs⟩, ?_⟩)
      rintro ⟨hid | hg, hs⟩
      · exact absurd ⟨hid, hs⟩ hin
      · exact ⟨hg, hs⟩

theorem Sound.refits_gains (h : Sound t) (hg : g ∈ t.groups) (hx : t.nameOf? id = some x)
    (hk : Group.Gains id p g k) : Refits t g k where
  id := hk.id
  name := hk.name
  present m hm := by
    rcases (hk.members m).1 hm with hm | ⟨-, rfl⟩
    · exact h.present g hg m hm
    · exact ⟨x, hx⟩
  sourced s hs := (hk.members s).2 (.inl (h.sourced g hg s (hk.source ▸ hs)))

theorem Group.Gains.mem_edges {e : Edge} (hk : Group.Gains id p g k) (he : e ∈ g.edges) :
    e ∈ k.edges :=
  Group.mem_edges_of_members hk.mode hk.isTemplate hk.source
    (fun m hm => (hk.members m).2 (.inl hm)) he

theorem Group.Gains.edges_self {e : Edge} (hk : Group.Gains id p g k) (hp : ¬p) (he : e ∈ k.edges) :
    e ∈ g.edges :=
  Group.mem_edges_of_members hk.mode.symm hk.isTemplate.symm hk.source.symm
    (fun m hm => ((hk.members m).1 hm).resolve_right fun h => hp h.1) he

theorem Group.Gains.figure_self (hk : Group.Gains id p g k) (hp : ¬p) :
    t.figure k = t.figure g := by
  refine Figure.ext hk.name hk.mode hk.isTemplate ?_ (Set.ext fun y => ?_)
  · simp only [figure, hk.source]
  · simp only [figure, Set.mem_ofPred_eq, hk.members, hp, false_and, or_false]

/-- A member gained is joined by name, also where the interface was a member before. -/
theorem Sound.figure_gains (h : Sound t) (hg : g ∈ t.groups) (hx : t.nameOf? id = some x)
    (hk : Group.Gains id (g.source ≠ some id) g k) : t.figure k = (t.figure g).join x := by
  refine Figure.ext hk.name hk.mode hk.isTemplate ?_ (Set.ext fun y => ?_)
  · simp only [figure, Figure.join, hk.source]
  · constructor
    · rintro ⟨m, hm, hy⟩
      rcases (hk.members m).1 hm with hm | ⟨-, rfl⟩
      · exact .inr ⟨m, hm, hy⟩
      · rw [hx] at hy
        exact .inl (Option.some.inj hy).symm
    · rintro (rfl | ⟨m, hm, hy⟩)
      · by_cases hs : g.source = some id
        · exact ⟨id, (hk.members id).2 (.inl (h.sourced g hg id hs)), hx⟩
        · exact ⟨id, (hk.members id).2 (.inr ⟨hs, rfl⟩), hx⟩
      · exact ⟨m, (hk.members m).2 (.inl hm), hy⟩

theorem joinAll_draws (h : Settled t) (hx : t.nameOf? id = some x) (base : String) :
    Draws t (t.groupsSharingName base) (Figure.when (InFamily base) (Figure.join x) '' t.picture)
      (t.joinAll (t.groupsSharingName base) id) := by
  have hfam : ∀ g ∈ t.groups, g.id ∈ t.groupsSharingName base ↔ InFamily base g.name := by
    intro g hg
    rw [h.sound.mem_groupsSharingName]
    constructor
    · rintro ⟨k, hk, hf, hid⟩
      exact (h.sound.handle_iff hg hk).1 hid ▸ hf
    · exact fun hf => ⟨g, hg, hf, rfl⟩
  have hgains : ∀ g, Group.Gains id (g.id ∈ t.groupsSharingName base ∧ g.source ≠ some id) g
      (enroll id (t.groupsSharingName base) g) := enroll_gains _
  rw [joinAll_eq]
  refine ⟨regroup_sound h.sound fun g hg => h.sound.refits_gains hg hx (hgains g),
    regroup_wired h.wired (fun g _ => (hgains g).id) (fun g hg e he => ?_) (fun g hg hq e he => ?_),
    regroup_picture fun g hg => ?_, rfl, fun _ => rfl⟩
  · exact Group.Gains.mem_edges (hgains g) he
  · exact Group.Gains.edges_self (hgains g) (fun hp => hq hp.1) he
  · have hk := hgains g
    unfold Figure.when
    by_cases hf : InFamily base g.name
    · have hin := (hfam g hg).2 hf
      simp only [hin, true_and] at hk
      rw [h.sound.figure_gains hg hx hk]
      exact (if_pos hf).symm
    · have hin : g.id ∉ t.groupsSharingName base := fun hin => hf ((hfam g hg).1 hin)
      rw [if_neg (show ¬InFamily base (t.figure g).name from hf)]
      exact Group.Gains.figure_self hk fun hp => hin hp.1

/-! ## Instances -/

theorem Draws.pend {P : Set Figure} (h : Draws t [] P u) (q : List GroupId) : Draws t q P u :=
  ⟨h.sound, ⟨h.wired.called, fun g hg _ => h.wired.made g hg List.not_mem_nil⟩, h.picture,
    h.matchers, h.naming⟩

/-- The first time a source is met it gets a copy of the template as it stands. -/
theorem instantiate_new (h : Settled t) (hx : t.nameOf? id = some x) (hF : F ∈ t.picture)
    (hm : F.mode = .push) (hn : ∀ G ∈ t.picture, G.name ≠ instanceName F.name x) :
    ∃ gid u, t.instantiate F.name id x = .ok (gid, u) ∧
      Draws t [gid] (insert (F.instantiate x) t.picture) u := by
  obtain ⟨g, hg, rfl⟩ := hF
  have hfree : ∀ k ∈ t.groups, k.name ≠ instanceName g.name x := fun k hk => hn _ (figure_mem hk)
  have hnone : t.groupNamed? (instanceName g.name x) = none :=
    h.sound.groupNamed?_eq_none_iff.2 hfree
  have hbase : t.groupNamed? g.name = some g := h.sound.groupNamed?_eq.2 ⟨hg, rfl⟩
  have hmem : ∀ j, j ∈ (g.instantiate ⟨t.lastGroup + 1⟩ (instanceName g.name x) id).members ↔
      j = id ∨ j ∈ g.members := fun j => Group.mem_insertMember
  refine ⟨⟨t.lastGroup + 1⟩,
    t.insertGroup (g.instantiate ⟨t.lastGroup + 1⟩ (instanceName g.name x) id), ?_,
    insertGroup_sound h.sound ⟨rfl, hfree, fun j hj => ?_, fun s hs => ?_⟩,
    insertGroup_wired h.wired h.sound.unissued fun hq => absurd (List.mem_singleton_self _) hq, ?_, rfl,
    fun _ => rfl⟩
  · exact h.sound.instantiate_made id hnone hbase hm
  · rcases (hmem j).1 hj with rfl | hj
    · exact ⟨x, hx⟩
    · exact h.sound.present g hg j hj
  · cases hs
    exact (hmem id).2 (.inl rfl)
  · rw [insertGroup_picture h.sound.unissued]
    congr 1
    refine Figure.ext rfl rfl rfl ?_ (members_insertMember (g := g) hx)
    simp [figure, Group.instantiate, hx, Figure.instantiate]

/-- Later the instance is found and stays as it is. -/
theorem instantiate_again (h : Settled t) (hx : t.nameOf? id = some x) (hF : F ∈ t.picture)
    (hn : F.name = instanceName base x) (hs : F.source = some x) :
    ∃ gid u, t.instantiate base id x = .ok (gid, u) ∧ Draws t [gid] t.picture u := by
  obtain ⟨g, hg, rfl⟩ := hF
  have hsrc := (h.sound.figure_source hg hx).1 hs
  have hin := h.sound.sourced g hg id hsrc
  have hk : Group.Gains id False g (g.reseat id) := by
    refine ⟨rfl, rfl, rfl, rfl, hsrc.symm, fun m => ?_⟩
    rw [false_and, or_false]
    refine Group.mem_insertMember.trans ⟨?_, .inr⟩
    rintro (rfl | hm)
    · exact hin
    · exact hm
  have hd := modifyGroup_draws (q := []) (ψ := fun F => F)
    (f := Group.reseat id) h hg
    (h.sound.refits_gains hg hx hk) (Group.Gains.figure_self hk not_false)
    (fun e he => Group.Gains.mem_edges hk he) fun _ e he => Group.Gains.edges_self hk not_false he
  rw [when_id_image] at hd
  exact ⟨g.id, _, h.sound.instantiate_taken id (h.sound.groupNamed?_eq.2 ⟨hg, hn⟩), hd.pend [g.id]⟩

/-! ## Resolution -/

theorem Sound.groupsOf_isEmpty (h : Sound t) (hx : t.nameOf? id = some x) (hF : F ∈ t.picture)
    (hm : x ∈ F.members) : (t.groupsOf id).isEmpty = false := by
  obtain ⟨g, hg, rfl⟩ := hF
  have hin : id ∈ g.members := (h.mem_figure hx).1 hm
  have hmem : g.id ∈ (t.groups.filter (·.hasMember id)).map (·.id) :=
    List.mem_map_of_mem (List.mem_filter.2 ⟨hg, by simpa [Group.hasMember] using hin⟩)
  have hne : t.groupsOf id ≠ [] := Ascending.ofList_ne_nil (List.ne_nil_of_mem hmem)
  simpa using hne

theorem addInterface_settled (h : Settled t) (hf : t.Fits id name) :
    Settled (t.addInterface id name) where
  sound := addInterface_sound h.sound hf
  wired := h.wired.of_extends (addInterface_extends h.sound hf) fun _ _ =>
    linked_addInterface h.sound hf

theorem nameOf?_addInterface_self (h : Sound t) (hf : t.Fits id name) :
    (t.addInterface id name).nameOf? id = some name := by
  rw [nameOf?_addInterface h hf, if_pos rfl]

/-- After a link was bound the passes settle the groups it touched, and its interface stays. -/
theorem resolve_bound {P : Set Figure} {touched : List GroupId}
    (hd : Draws t touched P u) (hx : t.nameOf? id = some x) (hF : F ∈ P) (hm : x ∈ F.members) :
    Draws t [] P (if ((u.associateAll touched).2.groupsOf id).isEmpty then
      (u.associateAll touched).2.removeInterface id else (u.associateAll touched).2) := by
  have ha := hd.associateAll
  have hstay := ha.sound.groupsOf_isEmpty ((ha.naming id).trans hx) (ha.picture.symm ▸ hF) hm
  rw [hstay]
  exact ha

/-- A link bound as destination joins the family of the group. -/
theorem resolve_destination (h : Settled t) (hf : t.Fits ⟨link.index⟩ link.name)
    (hr : m.role = .destination) (hF : F ∈ t.picture) (hn : InFamily m.group F.name) :
    Draws (t.addInterface ⟨link.index⟩ link.name) []
      (Figure.when (InFamily m.group) (Figure.join link.name) '' t.picture)
      (t.resolve m link).2 := by
  have he := addInterface_extends h.sound hf
  have ht := addInterface_settled h hf
  have hx := nameOf?_addInterface_self h.sound hf
  have hp := he.picture_eq h.sound
  have hj := joinAll_draws ht hx m.group
  rw [hp] at hj
  have hempty :
      ((t.addInterface ⟨link.index⟩ link.name).groupsSharingName m.group).isEmpty = false := by
    obtain ⟨g, hg, rfl⟩ := hF
    have hin := ht.sound.mem_groupsSharingName.2 ⟨g, he.groups.symm ▸ hg, hn, rfl⟩
    simpa using List.ne_nil_of_mem hin
  have hmem : F.join link.name ∈
      Figure.when (InFamily m.group) (Figure.join link.name) '' t.picture :=
    ⟨F, hF, if_pos hn⟩
  have hb := resolve_bound hj hx hmem (Set.mem_insert _ _)
  unfold resolve
  simp only [hr, hempty, Bool.false_eq_true, if_false]
  split <;> exact hb

/-- A link bound as source has an instance of the template, new or from before. -/
theorem resolve_source {P : Set Figure} (h : Settled t) (hf : t.Fits ⟨link.index⟩ link.name)
    (hr : m.role = .source)
    (hi : ∃ gid u,
      (t.addInterface ⟨link.index⟩ link.name).instantiate m.group ⟨link.index⟩ link.name =
        .ok (gid, u) ∧ Draws (t.addInterface ⟨link.index⟩ link.name) [gid] P u)
    (hF : F ∈ P) (hm : link.name ∈ F.members) :
    Draws (t.addInterface ⟨link.index⟩ link.name) [] P (t.resolve m link).2 := by
  obtain ⟨gid, u, hu, hd⟩ := hi
  have hb := resolve_bound hd (nameOf?_addInterface_self h.sound hf) hF hm
  unfold resolve
  simp only [hr, hu, Except.map]
  split <;> exact hb

/-! ## Scans and links that come up -/

def resolveAll (t : Topology) (ps : List (Matcher × Link)) : Topology :=
  ps.foldl (fun t p => (t.resolve p.1 p.2).2) t

theorem matchLinks_snd (t : Topology) (m : Matcher) (ls : List Link) :
    (t.matchLinks m ls).2 =
      t.resolveAll ((ls.filter fun l => l.up && m.accepts l.name).map (m, ·)) := by
  have hfold : ∀ (ks : List Link) (s : Nat × Option TopologyError × Topology),
      (ks.foldl (matchLinks.step m) s).2.2 = s.2.2.resolveAll (ks.map (m, ·)) := by
    intro ks
    induction ks with
    | nil => exact fun _ => rfl
    | cons l ks ih =>
      rintro ⟨n, first, t⟩
      have hstep : (matchLinks.step m (n, first, t) l).2.2 = (t.resolve m l).2 := by
        unfold matchLinks.step
        dsimp only
        split <;> simp_all
      rw [List.foldl_cons, ih, hstep]
      rfl
  unfold matchLinks
  dsimp only
  split <;> exact hfold _ (0, none, t)

theorem linkUp_snd (t : Topology) (l : Link) (hu : l.up = true) :
    (t.linkUp l).2 = t.resolveAll ((t.matchers.matching l.name).map (·, l)) := by
  unfold linkUp resolveAll
  simp only [hu, Bool.not_true, Bool.false_eq_true, if_false, List.foldl_map]
  refine (List.foldl_hom Prod.snd fun s m => ?_).symm
  cases s.2.resolve m l with
  | mk r u => cases r <;> rfl

end Topology
end MulticastRelay
