import MulticastRelay.Proofs.Topology.Removal

/-! # How the binding of links spreads

A template and the groups made from it, one for each link bound as source, have their destinations in
common. Binding a link and taking it down change which links have a group and which interfaces are
destinations. The edges are at all times those that the groups call for, each owned by the group
that calls for it.
-/
namespace MulticastRelay

theorem Topology.enroll_derivedFrom (id : InterfaceId) (gids : List GroupId) (g : Group) :
    (enroll id gids g).derivedFrom = g.derivedFrom := by
  unfold enroll
  refine List.foldlRecOn gids _ (motive := fun k : Group => k.derivedFrom = g.derivedFrom) rfl ?_
  intro k hk gid _
  split
  · split <;> exact hk
  · exact hk

/-- The group of a family that was made for a link, or its template where there is no link. -/
structure Group.Serves (base : String) (dests : Set InterfaceId) (r : Option Link) (g : Group) :
    Prop where
  name : g.name = r.elim base (Topology.instanceName base ·.name)
  mode : g.mode = .push
  source : g.source = r.map fun l => ⟨l.index⟩
  members : ∀ m, m ∈ g.members ↔ m ∈ dests ∨ g.source = some m
  derived : r ≠ none → g.isTemplate = false ∧ g.derivedFrom.isSome = true

namespace Group.Serves

variable {base : String} {dests : Set InterfaceId} {r : Option Link} {g : Group} {l : Link}
  {id : InterfaceId}

theorem mem_wanted (h : g.Serves base dests r) {e : Edge} :
    e ∈ g.wanted ↔ ∃ l, r = some l ∧ e.1 = ⟨l.index⟩ ∧ e.2 ∈ dests ∧ e.2 ≠ e.1 := by
  have hsend : g.Sends e.1 ↔ ∃ l, r = some l ∧ e.1 = ⟨l.index⟩ := by
    unfold Group.Sends
    rw [if_pos h.mode, h.source]
    cases r with
    | none => simp
    | some l => simp [(h.derived (Option.some_ne_none l)).1, eq_comm]
  constructor
  · rintro ⟨hs, hm, hne⟩
    obtain ⟨l, rfl, hl⟩ := hsend.1 hs
    refine ⟨l, rfl, hl, ((h.members _).1 hm).resolve_right fun hsource => hne ?_, hne⟩
    exact (Option.some.inj (h.source.symm.trans hsource)).symm.trans hl.symm
  · rintro ⟨l, hr, hl, hd, hne⟩
    exact ⟨hsend.2 ⟨l, hr, hl⟩, (h.members _).2 (.inl hd), hne⟩

theorem reseat (h : g.Serves base dests r) (hs : g.source = some id) :
    (g.reseat id).Serves base dests r := by
  refine ⟨h.name, h.mode, hs.symm.trans h.source, fun m => ?_, h.derived⟩
  refine Group.mem_insertMember.trans ?_
  change m = id ∨ m ∈ g.members ↔ m ∈ dests ∨ some id = some m
  rw [h.members m, hs, Option.some.injEq]
  tauto

theorem instantiate (h : g.Serves base dests none) (gid : GroupId) (l : Link) :
    (g.instantiate gid (Topology.instanceName base l.name) ⟨l.index⟩).Serves base dests (some l) := by
  refine ⟨rfl, rfl, rfl, fun m => ?_, fun _ => ⟨rfl, rfl⟩⟩
  refine (Group.mem_insertMember (g := g)).trans ?_
  rw [h.members m, h.source]
  simp only [Group.instantiate, Option.map_none, reduceCtorEq, or_false, Option.some.injEq]
  tauto

/-- A new destination is gained by all but the group it is the source of. -/
theorem enroll (h : g.Serves base dests r) {gids : List GroupId} (hin : g.id ∈ gids) :
    (Topology.enroll id gids g).Serves base (insert id dests) r := by
  have hk : Group.Gains id _ g (Topology.enroll id gids g) := Topology.enroll_gains gids g
  refine ⟨hk.name.trans h.name, hk.mode.trans h.mode, hk.source.trans h.source, fun m => ?_,
    fun hr => ⟨hk.isTemplate.trans (h.derived hr).1, ?_⟩⟩
  · rw [hk.members m, h.members m, hk.source, Set.mem_insert_iff]
    by_cases hs : g.source = some id
    · simp only [hs, ne_eq, not_true_eq_false, and_false, false_and, or_false, Option.some.injEq]
      tauto
    · simp only [hin, hs, ne_eq, not_false_eq_true, and_self, true_and]
      tauto
  · rw [Topology.enroll_derivedFrom]
    exact (h.derived hr).2

theorem removeMember (h : g.Serves base dests r) (hne : g.source ≠ some id) :
    (g.removeMember id).Serves base (dests \ {id}) r := by
  have hsource : (g.removeMember id).source = g.source := if_neg hne
  refine ⟨h.name, h.mode, hsource.trans h.source, fun m => ?_, h.derived⟩
  rw [hsource]
  refine List.mem_filter.trans ?_
  rw [h.members m, decide_eq_true_eq, Set.mem_sdiff, Set.mem_singleton_iff]
  constructor
  · rintro ⟨hd | hs, hm⟩
    · exact .inl ⟨hd, hm⟩
    · exact .inr hs
  · rintro (⟨hd, hm⟩ | hs)
    · exact ⟨.inl hd, hm⟩
    · refine ⟨.inr hs, ?_⟩
      rintro rfl
      exact hne hs

/-- The source tells which link the group was made for. -/
theorem eq_some_of_source {links : Set Link} (h : g.Serves base dests r)
    (hx : links.InjOn Link.index) (hr : ∀ a ∈ r, a ∈ links) (hl : l ∈ links)
    (hs : g.source = some ⟨l.index⟩) : r = some l := by
  rw [h.source] at hs
  obtain ⟨a, rfl, ha⟩ := Option.map_eq_some_iff.1 hs
  rw [hx (hr a rfl) hl (InterfaceId.mk.inj ha)]

theorem source_mem (h : g.Serves base dests (some l)) : ⟨l.index⟩ ∈ g.members :=
  (h.members _).2 (.inr h.source)

theorem inFamily (h : g.Serves base dests r) : Topology.InFamily base g.name := by
  cases r with
  | none => exact .inl h.name
  | some l => exact .inr ⟨l.name, h.name⟩

end Group.Serves

namespace Topology

variable {t u : Topology} {id x y : InterfaceId} {gid o : GroupId} {g k : Group} {i : Interface}
  {base name : String} {dests : Set InterfaceId} {links sources : Set Link} {l : Link}
  {q : List GroupId} {m : Matcher} {table : MatcherTable}

/-! ## Edges and their owners -/

/-- Each edge is owned by a group that calls for it, and each group owns the edges that it calls for,
unless it waits for its pass. -/
structure Allotted (q : List GroupId) (t : Topology) : Prop where
  called : ∀ x y o, t.owner? x y = some o → ∃ g ∈ t.groups, g.id = o ∧ (x, y) ∈ g.wanted
  made : ∀ g ∈ t.groups, g.id ∉ q → ∀ e ∈ g.wanted, t.owner? e.1 e.2 = some g.id

/-- No two groups call for the same pair. -/
def Sole (t : Topology) : Prop :=
  ∀ g ∈ t.groups, ∀ k ∈ t.groups, ∀ e ∈ g.wanted, e ∈ k.wanted → g = k

/-- Where no pair is contested a pass makes all edges of its group. -/
theorem Allotted.associate (h : Allotted (gid :: q) t) (hi : Intact t) (hs : Sole t) :
    Allotted q (t.associate gid).2 := by
  cases hg : t.group? gid with
  | none =>
    have hsame : (t.associate gid).2 = t := by
      unfold Topology.associate
      rw [hg]
    rw [hsame]
    refine ⟨h.called, fun g hm hq => h.made g hm fun hin => ?_⟩
    rcases List.mem_cons.1 hin with he | hin
    · exact Keyed.get?_eq_none_iff.1 hg (he ▸ List.mem_map_of_mem hm)
    · exact hq hin
  | some g =>
    obtain ⟨hm, rfl⟩ := hi.group?_eq.1 hg
    have hgroups := associate_groups t g.id
    constructor
    · intro x y o ho
      rw [hgroups]
      rw [hi.owner?_associate hg] at ho
      split at ho
      · rename_i hc
        exact ⟨g, hm, Option.some.inj ho, Group.mem_edges_iff.1 hc.2⟩
      · exact h.called x y o ho
    · intro k hk hq e he
      rw [hgroups] at hk
      rw [hi.owner?_associate hg]
      by_cases hid : k.id = g.id
      · have hkg := hi.group_eq hk hm hid
        subst hkg
        cases ho : t.owner? e.1 e.2 with
        | none => exact if_pos ⟨rfl, Group.mem_edges_iff.2 he⟩
        | some o =>
          obtain ⟨j, hj, rfl, hej⟩ := h.called _ _ _ ho
          cases hs k hk j hj e he hej
          exact if_neg (by simp)
      · have ho := h.made k hk (by simp [hid, hq]) e he
        rw [ho]
        exact if_neg (by simp)

theorem associateAll_frame (gids : List GroupId) :
    ∃ is, (t.associateAll gids).2 = { t with interfaces := is } := by
  rw [associateAll_snd]
  refine List.foldlRecOn gids _ (motive := fun u : Topology => ∃ is, u = { t with interfaces := is })
    ⟨t.interfaces, rfl⟩ ?_
  rintro _ ⟨is, rfl⟩ gid -
  obtain ⟨js, hframe⟩ := associate_frame (t := { t with interfaces := is }) gid
  exact ⟨js, hframe⟩

theorem Allotted.associateAll (h : Allotted q t) (hi : Intact t) (hs : Sole t) :
    Allotted [] (t.associateAll q).2 := by
  rw [associateAll_snd]
  induction q generalizing t with
  | nil => exact h
  | cons gid q ih =>
    refine ih (h.associate hi hs) (hi.associate gid) ?_
    have hgroups := associate_groups t gid
    unfold Sole
    rw [hgroups]
    exact hs

/-- Groups may come to call for more when they wait for their pass. -/
theorem Allotted.regroup (h : Allotted [] t) {φ : Group → Group}
    (hid : ∀ g ∈ t.groups, (φ g).id = g.id) (hmore : ∀ g ∈ t.groups, g.wanted ⊆ (φ g).wanted)
    (hsame : ∀ g ∈ t.groups, g.id ∉ q → (φ g).wanted ⊆ g.wanted) :
    Allotted q (t.regroup φ) where
  called x y o ho := by
    obtain ⟨g, hg, rfl, he⟩ := h.called x y o ho
    exact ⟨φ g, List.mem_map_of_mem hg, hid g hg, hmore g hg he⟩
  made k hk hq e he := by
    obtain ⟨g, hg, rfl⟩ := List.mem_map.1 hk
    rw [hid g hg] at hq ⊢
    exact h.made g hg List.not_mem_nil e (hsame g hg hq he)

theorem Allotted.insertGroup (h : Allotted [] t) (hn : ∀ k ∈ t.groups, k.id ≠ g.id) :
    Allotted [g.id] (t.insertGroup g) where
  called x y o ho := by
    obtain ⟨k, hk, he⟩ := h.called x y o ho
    exact ⟨k, (mem_insertGroup hn).2 (.inr hk), he⟩
  made k hk hq e he := by
    rcases (mem_insertGroup hn).1 hk with rfl | hk
    · exact absurd (List.mem_singleton_self _) hq
    · exact h.made k hk List.not_mem_nil e he

theorem Intact.owner?_addInterface (h : Intact t) :
    (t.addInterface id name).owner? x y = t.owner? x y := by
  obtain ⟨i, -, -, ha, hi⟩ := h.interface?_addInterface id name
  unfold owner?
  rw [hi x]
  by_cases hx : x = id
  · subst hx
    rw [if_pos rfl, Option.bind_some, Interface.owner?, Interface.associate?, ha]
    cases t.interface? x <;> rfl
  · rw [if_neg hx]

/-! ## Families -/

/-- The groups are the template of a family and one group for each link of `sources`. -/
structure Family (base : String) (dests : Set InterfaceId) (sources : Set Link) (t : Topology) :
    Prop where
  each : ∀ g ∈ t.groups, ∃ r : Option Link, (∀ l ∈ r, l ∈ sources) ∧ g.Serves base dests r
  all : ∀ r : Option Link, (∀ l ∈ r, l ∈ sources) → ∃ g ∈ t.groups, g.Serves base dests r

namespace Family

theorem template (h : Family base dests sources t) : ∃ g ∈ t.groups, g.Serves base dests none :=
  h.all none fun _ hl => by cases hl

theorem ofLink (h : Family base dests sources t) (hl : l ∈ sources) :
    ∃ g ∈ t.groups, g.Serves base dests (some l) :=
  h.all (some l) fun _ hk => by
    cases hk
    exact hl

theorem sole (h : Family base dests sources t) (hi : Intact t)
    (hs : sources.InjOn Link.index) : Sole t := by
  intro g hg k hk e heg hek
  obtain ⟨r, hr, hgs⟩ := h.each g hg
  obtain ⟨s, hrs, hks⟩ := h.each k hk
  obtain ⟨a, rfl, ha, -⟩ := hgs.mem_wanted.1 heg
  obtain ⟨b, rfl, hb, -⟩ := hks.mem_wanted.1 hek
  have hab : a = b := hs (hr a rfl) (hrs b rfl) (InterfaceId.mk.inj (ha.symm.trans hb))
  exact List.inj_on_of_nodup_map hi.group_names hg hk (by rw [hgs.name, hks.name, hab])

theorem regroup (h : Family base dests sources t) {φ : Group → Group} {ds : Set InterfaceId}
    (hφ : ∀ g ∈ t.groups, ∀ r, g.Serves base dests r → (φ g).Serves base ds r) :
    Family base ds sources (t.regroup φ) where
  each k hk := by
    obtain ⟨g, hg, rfl⟩ := List.mem_map.1 hk
    obtain ⟨r, hr, hs⟩ := h.each g hg
    exact ⟨r, hr, hφ g hg r hs⟩
  all r hr := by
    obtain ⟨g, hg, hs⟩ := h.all r hr
    exact ⟨φ g, List.mem_map_of_mem hg, hφ g hg r hs⟩

theorem insertGroup (h : Family base dests sources t) (hn : ∀ k ∈ t.groups, k.id ≠ g.id)
    (hg : g.Serves base dests (some l)) : Family base dests (insert l sources) (t.insertGroup g) where
  each k hk := by
    rcases (mem_insertGroup hn).1 hk with rfl | hk
    · exact ⟨some l, fun a ha => by cases ha; exact Set.mem_insert l sources, hg⟩
    · obtain ⟨r, hr, hs⟩ := h.each k hk
      exact ⟨r, fun a ha => Set.mem_insert_of_mem l (hr a ha), hs⟩
  all r hr := by
    have hold : (∀ a ∈ r, a ∈ sources) → ∃ g_1 ∈ (t.insertGroup g).groups, g_1.Serves base dests r := by
      intro hr
      obtain ⟨k, hk, hs⟩ := h.all r hr
      exact ⟨k, (mem_insertGroup hn).2 (.inr hk), hs⟩
    cases r with
    | none => exact hold fun a ha => by cases ha
    | some a =>
      rcases hr a rfl with rfl | ha
      · exact ⟨g, (mem_insertGroup hn).2 (.inl rfl), hg⟩
      · exact hold fun b hb => by cases hb; exact ha

theorem name_free (h : Family base dests sources t) (hn : links.InjOn Link.name)
    (hs : sources ⊆ links) (hl : l ∈ links) (hnew : l ∉ sources) :
    ∀ g ∈ t.groups, g.name ≠ instanceName base l.name := by
  intro g hg he
  obtain ⟨r, hr, hgs⟩ := h.each g hg
  rw [hgs.name] at he
  cases r with
  | none => exact instanceName_ne base l.name he.symm
  | some a =>
    have hal : a = l := hn (hs (hr a rfl)) hl (instanceName_inj he)
    exact hnew (hal ▸ hr a rfl)

theorem has (h : Family base dests sources t) (hi : Intact t) :
    (∀ d ∈ dests, t.Has d) ∧ ∀ l ∈ sources, t.Has ⟨l.index⟩ := by
  constructor
  · intro d hd
    obtain ⟨g, hg, hs⟩ := h.template
    exact (hi.peopled g hg).present d ((hs.members d).2 (.inl hd))
  · intro l hl
    obtain ⟨g, hg, hs⟩ := h.ofLink hl
    exact (hi.peopled g hg).present _ hs.source_mem

end Family

/-! ## Links that are bound -/

/-- A family among whose groups some wait for their pass. -/
structure Spread (table : MatcherTable) (base : String) (links : Set Link)
    (dests : Set InterfaceId) (sources : Set Link) (q : List GroupId) (t : Topology) : Prop where
  intact : Intact t
  family : Family base dests sources t
  allotted : Allotted q t
  matchers : t.matchers = table
  sources : sources ⊆ links

namespace Spread

theorem addInterface (h : Spread table base links dests sources [] t) (id : InterfaceId)
    (name : String) : Spread table base links dests sources [] (t.addInterface id name) where
  intact := h.intact.addInterface id name
  family := ⟨fun g hg => h.family.each g (addInterface_groups ▸ hg), fun r hr => by
    rw [addInterface_groups]
    exact h.family.all r hr⟩
  allotted := by
    constructor
    · intro x y o ho
      rw [addInterface_groups]
      exact h.allotted.called x y o (h.intact.owner?_addInterface ▸ ho)
    · intro g hg hq e he
      rw [h.intact.owner?_addInterface]
      exact h.allotted.made g (addInterface_groups ▸ hg) hq e he
  matchers := addInterface_matchers.trans h.matchers
  sources := h.sources

/-- The passes settle the groups that wait, and an interface that is a member of one stays. -/
theorem settle (h : Spread table base links dests sources q t) (hx : links.InjOn Link.index)
    (hm : ∃ g ∈ t.groups, id ∈ g.members) :
    Spread table base links dests sources []
      (if ((t.associateAll q).2.groupsOf id).isEmpty then (t.associateAll q).2.removeInterface id
        else (t.associateAll q).2) := by
  have hsole := h.family.sole h.intact (hx.mono h.sources)
  have hi := h.intact.associateAll q
  have ha := h.allotted.associateAll h.intact hsole
  obtain ⟨is, hframe⟩ := associateAll_frame (t := t) q
  have hgroups : (t.associateAll q).2.groups = t.groups := by rw [hframe]
  obtain ⟨g, hg, hmem⟩ := hm
  have hstay : ¬((t.associateAll q).2.groupsOf id).isEmpty = true := fun he =>
    groupsOf_isEmpty_iff.1 he g (hgroups ▸ hg) hmem
  rw [if_neg hstay]
  refine ⟨hi, ⟨?_, ?_⟩, ha, ?_, h.sources⟩
  · rw [hgroups]
    exact h.family.each
  · rw [hgroups]
    exact h.family.all
  · rw [hframe]
    exact h.matchers

/-- A link that has a group finds it and leaves it as it is. -/
theorem instantiate_again (h : Spread table base links dests sources [] t) (hl : l ∈ sources)
    (hid : t.Has ⟨l.index⟩) :
    ∃ gid u, t.instantiate base ⟨l.index⟩ l.name = .ok (gid, u) ∧
      Spread table base links dests sources [gid] u := by
  obtain ⟨g, hg, hs⟩ := h.family.ofLink hl
  have hfound : t.groupNamed? (instanceName base l.name) = some g :=
    h.intact.groupNamed?_eq.2 ⟨hg, hs.name⟩
  have hok : t.instantiate base ⟨l.index⟩ l.name =
      .ok (g.id, t.modifyGroup g.id (Group.reseat ⟨l.index⟩)) :=
    h.intact.instantiate_taken _ hfound
  have hserves : ∀ k ∈ t.groups, ∀ r, k.Serves base dests r →
      Group.Serves base dests r (if k.id = g.id then k.reseat ⟨l.index⟩ else k) := by
    intro k hk r hr
    by_cases hid : k.id = g.id
    · rw [if_pos hid]
      exact hr.reseat (h.intact.group_eq hk hg hid ▸ hs.source)
    · rw [if_neg hid]
      exact hr
  have hwanted : ∀ k ∈ t.groups,
      k.wanted = (if k.id = g.id then k.reseat ⟨l.index⟩ else k).wanted := by
    intro k hk
    obtain ⟨r, -, hr⟩ := h.family.each k hk
    ext e
    rw [hr.mem_wanted, (hserves k hk r hr).mem_wanted]
  refine ⟨g.id, _, hok, h.intact.instantiate hid hok, h.family.regroup hserves,
    h.allotted.regroup (fun k _ => ?_) (fun k hk => (hwanted k hk).subset)
      fun k hk _ => (hwanted k hk).symm.subset, h.matchers, h.sources⟩
  split <;> rfl

theorem instantiate_new (h : Spread table base links dests sources [] t)
    (hn : links.InjOn Link.name) (hl : l ∈ links) (hnew : l ∉ sources) (hid : t.Has ⟨l.index⟩) :
    ∃ gid u, t.instantiate base ⟨l.index⟩ l.name = .ok (gid, u) ∧
      Spread table base links dests (insert l sources) [gid] u := by
  have hfree := h.family.name_free hn h.sources hl hnew
  obtain ⟨g, hg, hs⟩ := h.family.template
  have hfound : t.groupNamed? base = some g := h.intact.groupNamed?_eq.2 ⟨hg, hs.name⟩
  have hok : t.instantiate base ⟨l.index⟩ l.name = .ok (⟨t.lastGroup + 1⟩, t.insertGroup
      (g.instantiate ⟨t.lastGroup + 1⟩ (instanceName base l.name) ⟨l.index⟩)) :=
    h.intact.instantiate_made _ (h.intact.groupNamed?_eq_none_iff.2 hfree) hfound hs.mode
  exact ⟨_, _, hok, h.intact.instantiate hid hok,
    h.family.insertGroup h.intact.unissued (hs.instantiate _ l),
    h.allotted.insertGroup (g := g.instantiate ⟨t.lastGroup + 1⟩ _ ⟨l.index⟩) h.intact.unissued,
    h.matchers,
    Set.insert_subset hl h.sources⟩

/-- A link bound as source has a group of its own, found or made. -/
theorem instantiate (h : Spread table base links dests sources [] t) (hn : links.InjOn Link.name)
    (hl : l ∈ links) (hid : t.Has ⟨l.index⟩) :
    ∃ gid u, t.instantiate base ⟨l.index⟩ l.name = .ok (gid, u) ∧
      Spread table base links dests (insert l sources) [gid] u := by
  by_cases hin : l ∈ sources
  · rw [Set.insert_eq_of_mem hin]
    exact h.instantiate_again hin hid
  · exact h.instantiate_new hn hl hin hid

/-- An interface bound as destination joins every group but the one it is the source of. -/
theorem joinAll (h : Spread table base links dests sources [] t) (hid : t.Has id) :
    Spread table base links (insert id dests) sources (t.groupsSharingName base)
      (t.joinAll (t.groupsSharingName base) id) := by
  have hall : ∀ g ∈ t.groups, g.id ∈ t.groupsSharingName base := by
    intro g hg
    obtain ⟨r, -, hs⟩ := h.family.each g hg
    exact h.intact.mem_groupsSharingName.2 ⟨g, hg, hs.inFamily, rfl⟩
  have hi := h.intact.joinAll hid (t.groupsSharingName base)
  rw [joinAll_eq] at hi ⊢
  refine ⟨hi, h.family.regroup fun g hg r hs => hs.enroll (hall g hg),
    h.allotted.regroup (fun g _ => (enroll_gains (t.groupsSharingName base) g).id)
      (fun g hg e he => ?_) fun g hg hq => absurd (hall g hg) hq, h.matchers, h.sources⟩
  obtain ⟨r, -, hs⟩ := h.family.each g hg
  obtain ⟨a, hr, ha, hd, hne⟩ := hs.mem_wanted.1 he
  exact (hs.enroll (hall g hg)).mem_wanted.2 ⟨a, hr, ha, Set.mem_insert_of_mem id hd, hne⟩

theorem resolve_source (h : Spread table base links dests sources [] t)
    (hn : links.InjOn Link.name) (hx : links.InjOn Link.index) (hl : l ∈ links)
    (hm : m.group = base) (hr : m.role = .source) :
    Spread table base links dests (insert l sources) [] (t.resolve m l).2 := by
  obtain ⟨gid, u, hok, hu⟩ := (h.addInterface ⟨l.index⟩ l.name).instantiate hn hl
    (h.intact.addInterface_has ⟨l.index⟩ l.name)
  obtain ⟨g, hg, hs⟩ := hu.family.ofLink (Set.mem_insert l sources)
  have hsettled := hu.settle hx ⟨g, hg, hs.source_mem⟩
  unfold Topology.resolve
  simp only [hr, hm, hok, Except.map]
  split <;> exact hsettled

theorem resolve_destination (h : Spread table base links dests sources [] t)
    (hx : links.InjOn Link.index) (hm : m.group = base) (hr : m.role = .destination) :
    Spread table base links (insert ⟨l.index⟩ dests) sources [] (t.resolve m l).2 := by
  have ha := h.addInterface ⟨l.index⟩ l.name
  have hj := ha.joinAll (h.intact.addInterface_has ⟨l.index⟩ l.name)
  obtain ⟨g, hg, hs⟩ := hj.family.template
  have hsettled := hj.settle hx ⟨g, hg, (hs.members _).2 (.inl (Set.mem_insert _ dests))⟩
  have hsome :
      ((t.addInterface ⟨l.index⟩ l.name).groupsSharingName base).isEmpty = false := by
    obtain ⟨k, hk, hks⟩ := ha.family.template
    have hin := ha.intact.mem_groupsSharingName.2 ⟨k, hk, hks.inFamily, rfl⟩
    simpa using List.ne_nil_of_mem hin
  unfold Topology.resolve
  simp only [hr, hm, hsome, Bool.false_eq_true, if_false]
  split <;> exact hsettled

/-! ## Links that are taken down -/

/-- The group made for a link is the one that goes with it. -/
theorem mem_derivedGroups (h : Spread table base links dests sources [] t)
    (hx : links.InjOn Link.index) (hl : l ∈ links) (hg : g ∈ t.groups) {r : Option Link}
    (hr : ∀ a ∈ r, a ∈ sources) (hs : g.Serves base dests r) :
    g.id ∈ t.derivedGroups ⟨l.index⟩ ↔ r = some l := by
  unfold derivedGroups
  simp only [List.mem_map, List.mem_filter, Bool.and_eq_true, beq_iff_eq]
  constructor
  · rintro ⟨k, ⟨hk, -, hsource⟩, he⟩
    rw [h.intact.group_eq hk hg he] at hsource
    exact hs.eq_some_of_source hx (fun a ha => h.sources (hr a ha)) hl hsource
  · rintro rfl
    exact ⟨g, ⟨hg, (hs.derived (Option.some_ne_none l)).2, hs.source⟩, rfl⟩

/-- Every other group loses no more than a destination. -/
theorem serves_removeMember (h : Spread table base links dests sources [] t)
    (hx : links.InjOn Link.index) (hl : l ∈ links) {r : Option Link} (hr : ∀ a ∈ r, a ∈ sources)
    (hs : g.Serves base dests r) (hne : r ≠ some l) :
    (g.removeMember ⟨l.index⟩).Serves base (dests \ {⟨l.index⟩}) r :=
  hs.removeMember fun hsource =>
    hne (hs.eq_some_of_source hx (fun a ha => h.sources (hr a ha)) hl hsource)

theorem family_removeInterface (h : Spread table base links dests sources [] t)
    (hx : links.InjOn Link.index) (hl : l ∈ links) (hi : t.interface? ⟨l.index⟩ = some i) :
    Family base (dests \ {⟨l.index⟩}) (sources \ {l}) (t.removeInterface ⟨l.index⟩) where
  each k hk := by
    obtain ⟨g, hg, hstay, rfl⟩ := (mem_groups_removeInterface hi).1 hk
    obtain ⟨r, hr, hs⟩ := h.family.each g hg
    have hne := mt (h.mem_derivedGroups hx hl hg hr hs).2 hstay
    refine ⟨r, fun a ha => ⟨hr a ha, ?_⟩, h.serves_removeMember hx hl hr hs hne⟩
    rintro rfl
    exact hne ha
  all r hr := by
    have hold : ∀ a ∈ r, a ∈ sources := fun a ha => (hr a ha).1
    have hne : r ≠ some l := fun he => (hr l he).2 rfl
    obtain ⟨g, hg, hs⟩ := h.family.all r hold
    have hstay := mt (h.mem_derivedGroups hx hl hg hold hs).1 hne
    exact ⟨_, (mem_groups_removeInterface hi).2 ⟨g, hg, hstay, rfl⟩,
      h.serves_removeMember hx hl hold hs hne⟩

theorem allotted_removeInterface (h : Spread table base links dests sources [] t)
    (hx : links.InjOn Link.index) (hl : l ∈ links) (hi : t.interface? ⟨l.index⟩ = some i) :
    Allotted [] (t.removeInterface ⟨l.index⟩) where
  called x y o ho := by
    obtain ⟨ho, hstay, -, hy⟩ := (h.intact.owner?_removeInterface hi).1 ho
    obtain ⟨g, hg, rfl, he⟩ := h.allotted.called x y o ho
    obtain ⟨r, hr, hs⟩ := h.family.each g hg
    have hk := h.serves_removeMember hx hl hr hs (mt (h.mem_derivedGroups hx hl hg hr hs).2 hstay)
    obtain ⟨a, ha, hax, hd, hne⟩ := hs.mem_wanted.1 he
    exact ⟨_, (mem_groups_removeInterface hi).2 ⟨g, hg, hstay, rfl⟩, rfl,
      hk.mem_wanted.2 ⟨a, ha, hax, ⟨hd, hy⟩, hne⟩⟩
  made k hk _ e he := by
    obtain ⟨g, hg, hstay, rfl⟩ := (mem_groups_removeInterface hi).1 hk
    obtain ⟨r, hr, hs⟩ := h.family.each g hg
    have hrl := mt (h.mem_derivedGroups hx hl hg hr hs).2 hstay
    obtain ⟨a, rfl, ha, ⟨hd, hy⟩, hne⟩ :=
      (h.serves_removeMember hx hl hr hs hrl).mem_wanted.1 he
    have ho := h.allotted.made g hg List.not_mem_nil e (hs.mem_wanted.2 ⟨a, rfl, ha, hd, hne⟩)
    refine (h.intact.owner?_removeInterface hi).2 ⟨ho, hstay, fun hxl => hrl ?_, hy⟩
    exact hs.eq_some_of_source hx (fun b hb => h.sources (hr b hb)) hl
      (hs.source.trans (congrArg some (ha.symm.trans hxl)))

theorem removeInterface (h : Spread table base links dests sources [] t)
    (hx : links.InjOn Link.index) (hl : l ∈ links) :
    Spread table base links (dests \ {⟨l.index⟩}) (sources \ {l}) []
      (t.removeInterface ⟨l.index⟩) := by
  cases hi : t.interface? ⟨l.index⟩ with
  | none =>
    have hgone : ¬t.Has ⟨l.index⟩ := fun hh => by
      obtain ⟨i, hsome⟩ := has_iff.1 hh
      rw [hi] at hsome
      cases hsome
    obtain ⟨hd, hs⟩ := h.family.has h.intact
    rw [removeInterface_of_none hi, Set.sdiff_singleton_eq_self fun hm => hgone (hd _ hm),
      Set.sdiff_singleton_eq_self fun hm => hgone (hs l hm)]
    exact h
  | some i =>
    refine ⟨h.intact.removeInterface _, h.family_removeInterface hx hl hi,
      h.allotted_removeInterface hx hl hi, ?_, Set.sdiff_subset.trans h.sources⟩
    rw [removeInterface_eq hi]
    exact h.matchers

end Spread
end Topology
end MulticastRelay
