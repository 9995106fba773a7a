import MulticastRelay.Proofs.Topology.Removal

/-! # Names

A name answers for one interface, and every interface answers to the name it bears. What an operation
does to this is seen from the interfaces that it makes, renames or destroys; edges and groups have no
part in it.
-/
namespace MulticastRelay.Topology

variable {t u v : Topology} {id a : InterfaceId} {gid : GroupId} {name x : String}

/-- Names and interfaces answer for each other. -/
def Named (t : Topology) : Prop := ∀ name id, t.holderOf? name = some id ↔ t.nameOf? id = some name

/-- Interfaces have the same indices and names. -/
structure SameNames (t u : Topology) : Prop where
  holders : ∀ x, u.holderOf? x = t.holderOf? x
  naming : ∀ id, u.nameOf? id = t.nameOf? id

/-- No interface of another index has the name. -/
def FreeFor (t : Topology) (id : InterfaceId) (name : String) : Prop :=
  ∀ a, t.holderOf? name = some a → a = id

theorem empty_named : Named empty := fun _ _ => by
  simp [empty, holderOf?, nameOf?, interface?, Keyed.get?]

theorem has_iff_nameOf? : t.Has id ↔ ∃ x, t.nameOf? id = some x := by
  rw [has_iff]
  constructor
  · rintro ⟨i, hi⟩
    exact ⟨i.name, congrArg (Option.map Interface.name) hi⟩
  · rintro ⟨x, hx⟩
    obtain ⟨i, hi, -⟩ := Option.map_eq_some_iff.1 hx
    exact ⟨i, hi⟩

theorem Named.interface?_of_holder (hn : Named t) (h : t.holderOf? name = some id) :
    ∃ i, t.interfaceNamed? name = some i ∧ i.id = id ∧ i.name = name := by
  obtain ⟨i, hi, hname⟩ := Option.map_eq_some_iff.1 ((hn name id).1 h)
  exact ⟨i, Option.bind_eq_some_iff.2 ⟨id, h, hi⟩, (Keyed.get?_mem hi).2, hname⟩

/-- An interface found under a name leaves the name free for no other. -/
theorem Named.freeFor (hn : Named t) {i : Interface} (hi : t.interfaceNamed? name = some i) :
    t.FreeFor i.id name := by
  intro a ha
  obtain ⟨j, hj, hid, -⟩ := hn.interface?_of_holder ha
  rw [hi] at hj
  cases hj
  exact hid.symm

theorem Named.freeFor_any (hn : Named t) (hi : t.interfaceNamed? name = none) :
    t.FreeFor id name := by
  intro a ha
  obtain ⟨j, hj, -⟩ := hn.interface?_of_holder ha
  rw [hi] at hj
  cases hj

namespace SameNames

theorem refl (t : Topology) : SameNames t t := ⟨fun _ => rfl, fun _ => rfl⟩

theorem trans (h : SameNames t u) (k : SameNames u v) : SameNames t v :=
  ⟨fun x => (k.holders x).trans (h.holders x), fun id => (k.naming id).trans (h.naming id)⟩

/-- Only groups, matchers and handles differ. -/
theorem of_interfaces (hn : u.names = t.names) (hi : u.interfaces = t.interfaces) :
    SameNames t u where
  holders x := by rw [holderOf?, holderOf?, hn]
  naming id := by rw [nameOf?, nameOf?, interface?, interface?, hi]

theorem has (h : SameNames t u) : u.Has id ↔ t.Has id := by
  rw [has_iff_nameOf?, has_iff_nameOf?, h.naming]

theorem named (h : SameNames t u) (hn : Named t) : Named u := fun name id => by
  rw [h.holders, h.naming]
  exact hn name id

theorem freeFor (h : SameNames t u) (hf : t.FreeFor id name) : u.FreeFor id name := fun a ha =>
  hf a ((h.holders name).symm.trans ha)

end SameNames

theorem Recast.sameNames (h : Recast t u) : SameNames t u where
  holders x := by rw [holderOf?, holderOf?, h.names]
  naming := h.naming

/-! ## Interfaces made and renamed -/

theorem Intact.nameOf?_addInterface (h : Intact t) (id : InterfaceId) (name : String) :
    (t.addInterface id name).nameOf? a = if a = id then some name else t.nameOf? a := by
  obtain ⟨i, -, hn, -, hi⟩ := h.interface?_addInterface id name
  unfold nameOf?
  rw [hi]
  by_cases ha : a = id
  · simp [ha, hn]
  · simp [ha]

/-- A renamed interface gives up its old name. -/
theorem holderOf?_rename (t : Topology) (id : InterfaceId) (name : String) :
    (t.addInterface id name).holderOf? x =
      if x = name then some id else if t.nameOf? id = some x then none else t.holderOf? x := by
  unfold addInterface nameOf?
  cases hi : t.interface? id with
  | none =>
    refine lookup_bindName.trans ?_
    simp [holderOf?]
  | some i =>
    refine lookup_bindName.trans ?_
    by_cases hx : x = name
    · rw [if_pos hx, if_pos hx]
    · rw [if_neg hx, if_neg hx]
      by_cases hn : i.name = name
      · rw [if_pos hn, if_neg (by simpa [hn] using Ne.symm hx)]
        rfl
      · rw [if_neg hn, lookup_erase]
        simp [eq_comm (a := x), holderOf?]

theorem Intact.addInterface_has_iff (h : Intact t) :
    (t.addInterface id name).Has a ↔ a = id ∨ t.Has a := by
  rw [has_iff_nameOf?, has_iff_nameOf?, h.nameOf?_addInterface]
  by_cases ha : a = id
  · simp [ha]
  · simp [ha]

theorem Named.addInterface (hn : Named t) (h : Intact t) (hf : t.FreeFor id name) :
    Named (t.addInterface id name) := by
  intro x a
  rw [holderOf?_rename, h.nameOf?_addInterface]
  by_cases hx : x = name
  · subst hx
    by_cases ha : a = id
    · simp [ha]
    · have hfree : t.nameOf? a ≠ some x := fun he => ha (hf a ((hn x a).2 he))
      simp [ha, hfree, Ne.symm ha]
  · by_cases ha : a = id
    · subst ha
      by_cases hi : t.nameOf? a = some x
      · simp [hx, hi, Ne.symm hx]
      · have hh : t.holderOf? x ≠ some a := fun he => hi ((hn x a).1 he)
        simp [hx, hi, hh, Ne.symm hx]
    · rw [if_neg hx, if_neg ha, ← hn x a]
      by_cases hi : t.nameOf? id = some x
      · have hh := (hn x id).2 hi
        simp [hi, hh, Ne.symm ha]
      · simp [hi]

/-- A link that finds its name free finds it free once links of other names were bound. -/
theorem FreeFor.addInterface {other : InterfaceId} {y : String} (h : t.FreeFor id name)
    (hy : name = y → id = other) : (t.addInterface other y).FreeFor id name := by
  intro a ha
  rw [holderOf?_rename] at ha
  split at ha
  · rename_i he
    rw [hy he]
    exact (Option.some.inj ha).symm
  · split at ha
    · cases ha
    · exact h a ha

/-! ## Interfaces destroyed -/

theorem nameOf?_removeInterface (t : Topology) (id : InterfaceId) :
    (t.removeInterface id).nameOf? a = if a = id then none else t.nameOf? a := by
  cases hi : t.interface? id with
  | none =>
    rw [removeInterface_of_none hi]
    by_cases ha : a = id
    · simp [ha, nameOf?, hi]
    · simp [ha]
  | some i =>
    rw [removeInterface_eq hi]
    unfold nameOf? interface?
    dsimp only
    rw [Keyed.get?_map (f := survivor id (t.derivedGroups id)) fun _ => rfl, Keyed.get?_erase,
      Option.map_map]
    by_cases ha : a = id
    · simp [ha]
    · simp only [ha, if_false]
      rfl

theorem holderOf?_removeInterface (t : Topology) (id : InterfaceId) :
    (t.removeInterface id).holderOf? x =
      if t.nameOf? id = some x then none else t.holderOf? x := by
  unfold nameOf?
  cases hi : t.interface? id with
  | none => simp [removeInterface_of_none hi]
  | some i =>
    rw [removeInterface_eq hi]
    refine lookup_erase.trans ?_
    simp [eq_comm (a := x), holderOf?]

theorem removeInterface_has_iff : (t.removeInterface id).Has a ↔ a ≠ id ∧ t.Has a := by
  rw [has_iff_nameOf?, has_iff_nameOf?, nameOf?_removeInterface]
  by_cases ha : a = id
  · simp [ha]
  · simp [ha]

theorem Named.removeInterface (hn : Named t) (id : InterfaceId) : Named (t.removeInterface id) := by
  intro x a
  rw [holderOf?_removeInterface, nameOf?_removeInterface]
  by_cases ha : a = id
  · subst ha
    by_cases hi : t.nameOf? a = some x
    · simp [hi]
    · have hh : t.holderOf? x ≠ some a := fun he => hi ((hn x a).1 he)
      simp [hi, hh]
  · rw [if_neg ha, ← hn x a]
    by_cases hi : t.nameOf? id = some x
    · have hh := (hn x id).2 hi
      simp [hi, hh, Ne.symm ha]
    · simp [hi]

/-- The orphans listed are the interfaces that go. -/
theorem Named.removeOrphans (hn : Named t) (ids : List InterfaceId) :
    Named (t.removeOrphans ids).2 ∧
      ∀ a, (t.removeOrphans ids).2.Has a ↔ a ∉ (t.removeOrphans ids).1 ∧ t.Has a := by
  induction ids generalizing t with
  | nil => exact ⟨hn, fun a => by simp [Topology.removeOrphans]⟩
  | cons id ids ih =>
    unfold Topology.removeOrphans Topology.removeIfOrphan
    by_cases ho : ((t.groupsOf id).isEmpty && (t.interface? id).isSome) = true
    · obtain ⟨hr, hh⟩ := ih (hn.removeInterface id)
      simp only [ho, if_true]
      refine ⟨hr, fun a => ?_⟩
      rw [hh, removeInterface_has_iff, List.mem_cons, not_or]
      tauto
    · simp only [ho]
      exact ih hn

/-! ## Passes and resolution -/

theorem associate_sameNames (t : Topology) (gid : GroupId) : SameNames t (t.associate gid).2 := by
  obtain ⟨is, he⟩ := associate_frame (t := t) gid
  refine ⟨fun x => by rw [he]; rfl, fun a => ?_⟩
  cases hg : t.group? gid with
  | none =>
    unfold associate
    rw [hg]
  | some g =>
    have hb := bare_connectAll (t := t) (x := a) gid g.edges
    have hc := congrArg (Option.map Interface.name) hb
    rw [Option.map_map, Option.map_map] at hc
    rw [associate_eq hg]
    unfold nameOf?
    rw [interface?_updateCapture]
    split
    · rw [Option.map_map]
      exact hc
    · exact hc

theorem associateAll_sameNames (t : Topology) (gids : List GroupId) :
    SameNames t (t.associateAll gids).2 := by
  rw [associateAll_snd]
  exact List.foldlRecOn gids _ (motive := fun u => SameNames t u) (.refl t)
    fun u hu gid _ => hu.trans (associate_sameNames u gid)

theorem associateAll_groups (t : Topology) (gids : List GroupId) :
    (t.associateAll gids).2.groups = t.groups := by
  rw [associateAll_snd]
  refine List.foldlRecOn gids _ (motive := fun u : Topology => u.groups = t.groups) rfl ?_
  intro u hu gid _
  exact (associate_groups u gid).trans hu

/-- A group made or found for a source has it as a member. -/
theorem Intact.instantiate_member (h : Intact t) {template : String} {r : GroupId × Topology}
    (hr : t.instantiate template id x = .ok r) :
    SameNames t r.2 ∧ ∃ g ∈ r.2.groups, id ∈ g.members := by
  rw [h.instantiate_eq] at hr
  split at hr
  · rename_i g hg
    cases hr
    obtain ⟨hg, -⟩ := h.groupNamed?_eq.1 hg
    refine ⟨.of_interfaces rfl rfl, _, List.mem_map_of_mem hg, ?_⟩
    rw [if_pos rfl]
    exact Group.mem_insertMember.2 (.inl rfl)
  · split at hr
    · cases hr
    · rename_i base hb
      split at hr
      · cases hr
        let g := base.instantiate ⟨t.lastGroup + 1⟩ (instanceName template x) id
        have hin : g ∈ (t.insertGroup g).groups :=
          (mem_insertGroup h.unissued).2 (.inl rfl)
        exact ⟨.of_interfaces rfl rfl, g, hin, Ascending.mem_insert_iff InterfaceId.before_total |>.2
          (.inl rfl)⟩
      · cases hr

theorem Intact.joinAll_member (h : Intact t) (id : InterfaceId) (base : String)
    (hne : t.groupsSharingName base ≠ []) :
    SameNames t (t.joinAll (t.groupsSharingName base) id) ∧
      ∃ g ∈ (t.joinAll (t.groupsSharingName base) id).groups, id ∈ g.members := by
  rw [joinAll_eq]
  refine ⟨.of_interfaces rfl rfl, ?_⟩
  obtain ⟨gid, hgid⟩ := List.exists_mem_of_ne_nil _ hne
  obtain ⟨g, hg, -, rfl⟩ := h.mem_groupsSharingName.1 hgid
  have hk : Group.Gains id _ g (enroll id (t.groupsSharingName base) g) :=
    enroll_gains (t.groupsSharingName base) g
  refine ⟨_, List.mem_map_of_mem hg, (hk.members id).2 ?_⟩
  by_cases hs : g.source = some id
  · exact .inl ((h.peopled g hg).sourced id hs)
  · exact .inr ⟨⟨hgid, hs⟩, rfl⟩

/-- After a link was bound its interface stays. -/
theorem settle_sameNames (touched : List GroupId) (hm : ∃ g ∈ t.groups, id ∈ g.members) :
    SameNames t (if ((t.associateAll touched).2.groupsOf id).isEmpty then
      (t.associateAll touched).2.removeInterface id else (t.associateAll touched).2) := by
  obtain ⟨g, hg, hid⟩ := hm
  have hstay : ((t.associateAll touched).2.groupsOf id).isEmpty ≠ true := fun he =>
    groupsOf_isEmpty_iff.1 he g (associateAll_groups t touched ▸ hg) hid
  rw [if_neg hstay]
  exact associateAll_sameNames t touched

/-- All that shows of a matcher resolved is the interface of the link. -/
theorem Intact.resolve_sameNames (h : Intact t) (m : Matcher) (link : Link) :
    SameNames (t.addInterface ⟨link.index⟩ link.name) (t.resolve m link).2 := by
  have ha := h.addInterface ⟨link.index⟩ link.name
  unfold Topology.resolve
  cases m.role with
  | source =>
    dsimp only
    cases hr : (t.addInterface ⟨link.index⟩ link.name).instantiate m.group ⟨link.index⟩ link.name with
    | error e => exact .refl _
    | ok r =>
      obtain ⟨hs, hm⟩ := ha.instantiate_member hr
      have hb := hs.trans (settle_sameNames [r.1] hm)
      simp only [Except.map]
      split <;> exact hb
  | destination =>
    dsimp only
    by_cases he : ((t.addInterface ⟨link.index⟩ link.name).groupsSharingName m.group).isEmpty = true
    · simp only [he, if_true]
      exact .refl _
    · obtain ⟨hs, hm⟩ := ha.joinAll_member ⟨link.index⟩ m.group (by simpa using he)
      have hb := hs.trans (settle_sameNames
        ((t.addInterface ⟨link.index⟩ link.name).groupsSharingName m.group) hm)
      rw [Bool.not_eq_true] at he
      simp only [he, Bool.false_eq_true, if_false]
      split <;> exact hb

/-- Matchers resolved in turn leave the interfaces there were, and those of their links. -/
theorem Named.resolveAll (ps : List (Matcher × Link)) : ∀ {t : Topology}, Named t → Intact t →
    (∀ p ∈ ps, t.FreeFor ⟨p.2.index⟩ p.2.name) →
    (ps.Pairwise fun p q => q.2.name = p.2.name → q.2.index = p.2.index) →
    Named (t.resolveAll ps) ∧
      ∀ a, (t.resolveAll ps).Has a ↔ t.Has a ∨ ∃ p ∈ ps, a = ⟨p.2.index⟩ := by
  induction ps with
  | nil => exact fun hn _ _ _ => ⟨hn, fun a => by simp [Topology.resolveAll]⟩
  | cons p ps ih =>
    intro t hn h hfree hdist
    obtain ⟨hp, hdist⟩ := List.pairwise_cons.1 hdist
    have hs := h.resolve_sameNames p.1 p.2
    have hu := hs.named (hn.addInterface h (hfree p (List.mem_cons_self ..)))
    have hrest : ∀ q ∈ ps, (t.resolve p.1 p.2).2.FreeFor ⟨q.2.index⟩ q.2.name := fun q hq =>
      hs.freeFor ((hfree q (List.mem_cons_of_mem _ hq)).addInterface fun he =>
        congrArg InterfaceId.mk (hp q hq he))
    obtain ⟨hr, hh⟩ := ih hu (h.resolve p.1 p.2) hrest hdist
    refine ⟨hr, fun a => (hh a).trans ?_⟩
    rw [hs.has, h.addInterface_has_iff, List.exists_mem_cons_iff]
    tauto

/-- Links of distinct names that find their names free are bound without a name lost. -/
theorem Named.matchLinks (hn : Named t) (h : Intact t) (m : Matcher) (ls : List Link)
    (hfree : ∀ l ∈ ls, t.FreeFor ⟨l.index⟩ l.name) (hdist : (ls.map Link.name).Nodup) :
    Named (t.matchLinks m ls).2 ∧ ∀ a, (t.matchLinks m ls).2.Has a ↔
      t.Has a ∨ ∃ l ∈ ls, l.up = true ∧ m.accepts l.name = true ∧ a = ⟨l.index⟩ := by
  have hp : ls.Pairwise fun l k => l.name ≠ k.name := List.pairwise_map.1 hdist
  rw [matchLinks_snd]
  obtain ⟨hr, hh⟩ := Named.resolveAll
    ((ls.filter fun l => l.up && m.accepts l.name).map (m, ·)) hn h
    (fun p hp => by
      obtain ⟨l, hl, rfl⟩ := List.mem_map.1 hp
      exact hfree l (List.mem_filter.1 hl).1)
    (List.pairwise_map.2 ((hp.filter _).imp fun hne he => absurd he.symm hne))
  refine ⟨hr, fun a => (hh a).trans (or_congr_right ?_)⟩
  simp only [List.mem_map, List.mem_filter, Bool.and_eq_true]
  constructor
  · rintro ⟨p, ⟨l, ⟨hl, hu, hm⟩, rfl⟩, rfl⟩
    exact ⟨l, hl, hu, hm, rfl⟩
  · rintro ⟨l, hl, hu, hm, rfl⟩
    exact ⟨(m, l), ⟨l, ⟨hl, hu, hm⟩, rfl⟩, rfl⟩

theorem Named.linkUp (hn : Named t) (h : Intact t) {link : Link}
    (hf : t.FreeFor ⟨link.index⟩ link.name) :
    Named (t.linkUp link).2 ∧ (∀ a, t.Has a → (t.linkUp link).2.Has a) ∧
      ∀ a, (t.linkUp link).2.Has a → t.Has a ∨ a = ⟨link.index⟩ := by
  by_cases hu : link.up = true
  · rw [linkUp_snd t link hu]
    obtain ⟨hr, hh⟩ := Named.resolveAll ((t.matchers.matching link.name).map (·, link)) hn h
      (fun p hp => by obtain ⟨m, -, rfl⟩ := List.mem_map.1 hp; exact hf)
      (List.pairwise_map.2 (List.pairwise_of_forall fun _ _ _ => rfl))
    refine ⟨hr, fun a ha => (hh a).2 (.inl ha), fun a ha => ((hh a).1 ha).imp_right ?_⟩
    rintro ⟨p, hp, rfl⟩
    obtain ⟨m, -, rfl⟩ := List.mem_map.1 hp
    rfl
  · have he : (t.linkUp link).2 = t := by
      unfold Topology.linkUp
      simp [hu]
    rw [he]
    exact ⟨hn, fun _ ha => ha, fun a ha => .inl ha⟩

/-! ## Groups and members -/

theorem addGroup_interfaces (t : Topology) (name : String) (mode : Mode) (relay : RelayType) :
    (t.addGroup name mode relay).2.interfaces = t.interfaces := by
  unfold addGroup
  split
  · split <;> rfl
  · rfl

theorem addMember_interfaces {role : Role} (hu : t.addMember gid id role = .ok u) :
    u.interfaces = t.interfaces := by
  unfold addMember at hu
  split at hu
  · cases hu
  · split at hu
    · cases hu
    · cases hu
      rfl

theorem addMatcher_interfaces {stem : String} {role : Role} {r : Matcher × Topology}
    (hr : t.addMatcher gid stem role = .ok r) : r.2.interfaces = t.interfaces := by
  unfold addMatcher at hr
  split at hr
  · cases hr
  · cases hr
    dsimp only
    split <;> rfl

theorem addGroup_sameNames (t : Topology) (name : String) (mode : Mode) (relay : RelayType) :
    SameNames t (t.addGroup name mode relay).2 := by
  unfold addGroup
  split
  · split <;> exact .of_interfaces rfl rfl
  · exact .of_interfaces rfl rfl

theorem addMember_sameNames {role : Role} (hu : t.addMember gid id role = .ok u) :
    SameNames t u := by
  unfold addMember at hu
  split at hu
  · cases hu
  · split at hu
    · cases hu
    · cases hu
      exact .of_interfaces rfl rfl

theorem addMatcher_sameNames {stem : String} {role : Role} {r : Matcher × Topology}
    (hr : t.addMatcher gid stem role = .ok r) : SameNames t r.2 := by
  unfold addMatcher at hr
  split at hr
  · cases hr
  · cases hr
    dsimp only
    split <;> exact .of_interfaces rfl rfl

theorem dropGroup_sameNames (t : Topology) (gid : GroupId) : SameNames t (t.dropGroup gid) := by
  cases hg : t.group? gid with
  | none =>
    rw [dropGroup_of_none hg]
    exact .refl t
  | some g =>
    refine ⟨fun x => by rw [dropGroup_eq hg]; rfl, fun a => ?_⟩
    rw [nameOf?, interface?_dropGroup hg, Option.map_map]
    rfl

theorem Named.removeMember (hn : Named t) {r : Bool × Topology}
    (hr : t.removeMember gid id = .ok r) :
    Named r.2 ∧ ∀ a, r.2.Has a ↔ (r.1 = true → a ≠ id) ∧ t.Has a := by
  have hs : SameNames t (t.modifyGroup gid (·.removeMember id)) := .of_interfaces rfl rfl
  unfold Topology.removeMember at hr
  split at hr
  · cases hr
  · split at hr
    · cases hr
    · dsimp only at hr
      split at hr
      · cases hr
        refine ⟨(hs.named hn).removeInterface id, fun a => ?_⟩
        rw [removeInterface_has_iff, hs.has]
        simp
      · cases hr
        refine ⟨hs.named hn, fun a => ?_⟩
        rw [hs.has]
        simp

theorem Named.removeGroup (hn : Named t) {r : List InterfaceId × Topology}
    (hr : t.removeGroup gid = .ok r) : Named r.2 ∧ ∀ a, r.2.Has a ↔ a ∉ r.1 ∧ t.Has a := by
  unfold Topology.removeGroup at hr
  split at hr
  · cases hr
  · rename_i g hg
    cases hr
    have hm : SameNames t { t with matchers := t.matchers.removeGroup g.name } :=
      .of_interfaces rfl rfl
    have hs := hm.trans (dropGroup_sameNames _ gid)
    obtain ⟨hr, hh⟩ := (hs.named hn).removeOrphans g.members
    refine ⟨hr, fun a => ?_⟩
    rw [hh, hs.has]

end MulticastRelay.Topology
