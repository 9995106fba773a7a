import MulticastRelay.Proofs.Topology.Lifetimes

/-! # What a group takes with it

A group that is removed takes its edges, its matchers and the members that are in no other group.
Those members go one by one, each with the edges towards it. An orphan is the source of no group, so
its going reaches no group: all of it is one change of the interfaces, made at once here.
-/
namespace MulticastRelay

/-- The matchers of a group go; the others stay in their order. -/
theorem MatcherTable.toList_removeGroup (t : MatcherTable) (group : String) :
    (t.removeGroup group).toList = t.toList.filter (·.group ≠ group) := by
  rw [toList_eq, toList_eq, buckets_removeGroup]
  induction t.buckets with
  | nil => rfl
  | cons b bs ih =>
    rw [List.map_cons, List.flatMap_cons, List.filter_append, ← ih, List.filter_cons]
    unfold Bucket.without
    cases hb : b.rules.filter (·.group ≠ group) with
    | nil => rfl
    | cons m ms => rfl

namespace Topology

variable {t : Topology} {id : InterfaceId} {gid : GroupId} {g : Group} {i : Interface}
  {xs ys : List InterfaceId}

/-- The topology once some interfaces are gone, with the names they bore and the edges towards
them. -/
def without (t : Topology) (gone : List InterfaceId) : Topology :=
  { t with
    interfaces := (t.interfaces.filter fun i => i.id ∉ gone).map fun i =>
      { i with associates := i.associates.filter fun a => a.target ∉ gone }
    names := t.names.filter fun n => ∀ i ∈ t.interfaces, i.id ∈ gone → i.name ≠ n.1 }

@[simp] theorem without_nil : t.without [] = t := by
  simp [without]

theorem without_has : (t.without xs).Has id ↔ t.Has id ∧ id ∉ xs := by
  unfold Has without
  simp only [List.mem_map, List.mem_filter, decide_eq_true_eq, exists_exists_and_eq_and]
  constructor
  · rintro ⟨i, ⟨hi, hx⟩, rfl⟩
    exact ⟨⟨i, hi, rfl⟩, hx⟩
  · rintro ⟨⟨i, hi, rfl⟩, hx⟩
    exact ⟨i, ⟨hi, hx⟩, rfl⟩

/-- Interfaces may go in two parts. -/
theorem without_without : (t.without xs).without ys = t.without (xs ++ ys) := by
  unfold without
  simp only [Topology.mk.injEq, and_true]
  refine ⟨?_, ?_⟩
  · simp only [List.filter_map, List.filter_filter, List.map_map, Function.comp_def,
      List.mem_append, not_or, Bool.decide_and, Bool.and_comm]
  · rw [List.filter_filter]
    refine List.filter_congr fun n _ => ?_
    rw [Bool.eq_iff_iff]
    simp only [Bool.and_eq_true, decide_eq_true_eq, List.forall_mem_map, List.mem_filter,
      List.mem_append, and_imp]
    constructor
    · rintro ⟨hys, hxs⟩ i hi hin
      by_cases hx : i.id ∈ xs
      · exact hxs i hi hx
      · exact hys i hi hx (hin.resolve_left hx)
    · intro hn
      exact ⟨fun i hi _ hy => hn i hi (.inr hy), fun i hi hx => hn i hi (.inl hx)⟩

theorem Intact.removeInterface_without (h : Intact t) (hi : t.interface? id = some i)
    (ho : ∀ g ∈ t.groups, id ∉ g.members) : t.removeInterface id = t.without [id] := by
  obtain ⟨hderived, hgroups⟩ := h.removeInterface_orphan hi ho
  obtain ⟨him, hid⟩ := h.interface?_eq.1 hi
  have hborne : ∀ name, (∀ j ∈ t.interfaces, j.id ∈ [id] → j.name ≠ name) ↔ name ≠ i.name := by
    intro name
    constructor
    · intro hn
      exact (hn i him (List.mem_singleton.2 hid)).symm
    · intro hn j hj hji
      have hfound := h.interface?_eq.2 ⟨hj, List.mem_singleton.1 hji⟩
      rw [hi] at hfound
      cases hfound
      exact hn.symm
  rw [removeInterface_eq hi] at hgroups ⊢
  unfold without
  simp only [Topology.mk.injEq, and_true]
  refine ⟨?_, ?_, hgroups, ?_⟩
  · rw [hderived]
    simp [Keyed.erase, survivor]
  · exact List.filter_congr fun n _ => decide_eq_decide.2 (hborne n.1).symm
  · rw [hderived]
    simp [namesOf]

/-- The orphans of a list go at once. -/
theorem Intact.removeOrphans_eq (h : Intact t) (hn : xs.Nodup) (hx : ∀ m ∈ xs, t.Has m) :
    t.removeOrphans xs = (xs.filter fun m => (t.groupsOf m).isEmpty,
      t.without (xs.filter fun m => (t.groupsOf m).isEmpty)) := by
  induction xs generalizing t with
  | nil => rw [List.filter_nil, without_nil]; rfl
  | cons m xs ih =>
    obtain ⟨hm, hn⟩ := List.nodup_cons.1 hn
    obtain ⟨hhas, hx⟩ := List.forall_mem_cons.1 hx
    obtain ⟨i, hi⟩ := has_iff.1 hhas
    unfold Topology.removeOrphans removeIfOrphan
    rw [hi, Option.isSome_some, Bool.and_true, List.filter_cons]
    by_cases ho : (t.groupsOf m).isEmpty = true
    · have hw := h.removeInterface_without hi (groupsOf_isEmpty_iff.1 ho)
      have hrest : (t.without [m]).removeOrphans xs = _ := ih (hw ▸ h.removeInterface m) hn fun k hk =>
        without_has.2 ⟨hx k hk, fun he => hm (List.mem_singleton.1 he ▸ hk)⟩
      rw [if_pos ho, if_pos ho]
      dsimp only
      rw [hw, hrest, without_without]
      rfl
    · rw [if_neg ho, if_neg ho]
      dsimp only
      rw [ih h hn hx]
      rfl

/-- The topology without a group, its edges and its matchers, while its members all stay. -/
def disband (t : Topology) (g : Group) : Topology :=
  { t with matchers := t.matchers.removeGroup g.name }.dropGroup g.id

theorem disband_eq (hg : t.group? g.id = some g) : t.disband g =
    { t with
      groups := Keyed.erase Group.id g.id t.groups
      groupNames := Keyed.erase Prod.fst g.name t.groupNames
      matchers := t.matchers.removeGroup g.name
      interfaces := t.interfaces.map (·.dropOwned g.id) } :=
  dropGroup_eq (t := { t with matchers := t.matchers.removeGroup g.name }) hg

/-- The members of a group that no other group has. -/
def orphans (t : Topology) (g : Group) : List InterfaceId :=
  g.members.filter fun m => ((t.disband g).groupsOf m).isEmpty

theorem Intact.removeGroup_eq (h : Intact t) (hg : t.group? gid = some g) :
    t.removeGroup gid = .ok (t.orphans g, (t.disband g).without (t.orphans g)) := by
  obtain ⟨hmem, rfl⟩ := h.group?_eq.1 hg
  have hp := h.peopled g hmem
  have hd : Intact (t.disband g) := (h.matchers (h.filed.removeGroup g.name)).dropGroup g.id
  have hnodup : g.members.Nodup := hp.sorted.imp fun {a b} hab => by
    rintro rfl
    simp [InterfaceId.before] at hab
  have hhas : ∀ m ∈ g.members, (t.disband g).Has m := by
    intro m hm
    obtain ⟨i, hin, rfl⟩ := List.mem_map.1 (hp.present m hm)
    rw [disband_eq hg]
    exact List.mem_map.2 ⟨_, List.mem_map_of_mem hin, rfl⟩
  unfold Topology.removeGroup
  rw [hg]
  exact congrArg Except.ok (hd.removeOrphans_eq hnodup hhas)

theorem Intact.mem_orphans (h : Intact t) (hg : g ∈ t.groups) :
    id ∈ t.orphans g ↔ id ∈ g.members ∧ ∀ k ∈ t.groups, id ∈ k.members → k = g := by
  unfold orphans
  rw [List.mem_filter, groupsOf_isEmpty_iff]
  refine and_congr_right fun _ => ?_
  constructor
  · intro hn k hk hm
    by_contra hne
    have hid : k.id ≠ g.id := fun he => hne (h.group_eq hk hg he)
    exact hn k (mem_groups_dropGroup.2 ⟨hk, hid⟩) hm
  · intro hall k hk hm
    obtain ⟨hk, hid⟩ := mem_groups_dropGroup.1 hk
    exact hid (congrArg Group.id (hall k hk hm))

/-- What the removal of a group leaves of a topology. -/
structure TakesItsOwn (t : Topology) (g : Group) (gone : List InterfaceId) (u : Topology) : Prop where
  ascending : gone.Pairwise fun a b => a.before b = true
  /-- The interfaces that go are the members that no other group has. -/
  gone_iff : ∀ m, m ∈ gone ↔ t.Has m ∧ m ∈ g.members ∧ ∀ k ∈ t.groups, m ∈ k.members → k = g
  /-- The others stay, with their associates but those of the group and those towards the gone. -/
  interfaces : u.interfaces = (t.interfaces.filter fun i => i.id ∉ gone).map fun i =>
    { i with associates := i.associates.filter fun a => a.owner ≠ g.id ∧ a.target ∉ gone }
  names : u.names = t.names.filter fun n => ∀ i ∈ t.interfaces, i.id ∈ gone → i.name ≠ n.1
  groups : u.groups = t.groups.filter fun k => k.id ≠ g.id
  groupNames : u.groupNames = t.groupNames.filter fun p => p.1 ≠ g.name
  matchers : u.matchers.toList = t.matchers.toList.filter fun m => m.group ≠ g.name
  lastGroup : u.lastGroup = t.lastGroup

theorem removeGroup_takes_its_own (h : Reachable t) (hg : t.group? gid = some g) :
    ∃ gone u, t.removeGroup gid = .ok (gone, u) ∧ TakesItsOwn t g gone u := by
  have hi := h.intact
  obtain ⟨hmem, hid⟩ := hi.group?_eq.1 hg
  have hr := hi.removeGroup_eq hg
  rw [disband_eq (hid.symm ▸ hg)] at hr
  refine ⟨_, _, hr, ?_⟩
  exact
    { ascending := (hi.peopled g hmem).sorted.filter _
      gone_iff := fun m => by
        rw [hi.mem_orphans hmem]
        exact ⟨fun hm => ⟨(hi.peopled g hmem).present m hm.1, hm⟩, And.right⟩
      interfaces := by
        simp only [without, Interface.dropOwned, List.filter_map, List.map_map,
          List.filter_filter, Function.comp_def, Bool.decide_and, Bool.and_comm]
      names := List.filter_congr fun n _ => by
        simp [Interface.dropOwned]
      groups := rfl
      groupNames := rfl
      matchers := MatcherTable.toList_removeGroup _ _
      lastGroup := rfl }

/-- A push group and a mesh share two of three interfaces, and each owns an edge between the two. -/
def shared : List Event :=
  [.addInterface ⟨1⟩ "a", .addInterface ⟨2⟩ "b", .addInterface ⟨3⟩ "c",
    .addGroup "one" .push .classicalFlooding, .addGroup "two" .merge .classicalFlooding,
    .addMember ⟨1⟩ ⟨1⟩ .source, .addMember ⟨1⟩ ⟨2⟩ .destination, .addMember ⟨1⟩ ⟨3⟩ .destination,
    .addMember ⟨2⟩ ⟨1⟩ .destination, .addMember ⟨2⟩ ⟨2⟩ .destination, .associate ⟨1⟩,
    .associate ⟨2⟩, .addMatcher ⟨1⟩ "ppp" .destination, .addMatcher ⟨2⟩ "ppp" .destination]

/-- The push group takes the interface that only it had, and leaves the mesh its one edge. -/
theorem shared_without_push :
    ∃ g gone u, (shared.foldl next empty).removeGroup ⟨1⟩ = .ok (gone, u) ∧ gone = [⟨3⟩] ∧
      u.associateCount = 1 ∧ u.matchers.size = 1 ∧
      TakesItsOwn (shared.foldl next empty) g gone u := by
  have hsome : ((shared.foldl next empty).group? ⟨1⟩).isSome = true := by decide +kernel
  obtain ⟨g, hg⟩ := Option.isSome_iff_exists.1 hsome
  obtain ⟨gone, u, hu, htakes⟩ :=
    removeGroup_takes_its_own (reachable_foldl .empty shared) hg
  have hrun : ((shared.foldl next empty).removeGroup ⟨1⟩).toOption.map
      (fun r => (r.1, r.2.associateCount, r.2.matchers.size)) = some ([⟨3⟩], 1, 1) := by
    decide +kernel
  rw [hu] at hrun
  obtain ⟨hgone, hcount, hsize⟩ : gone = [⟨3⟩] ∧ u.associateCount = 1 ∧ u.matchers.size = 1 := by
    simpa [Except.toOption] using hrun
  exact ⟨g, gone, u, hu, hgone, hcount, hsize, htakes⟩

end Topology
end MulticastRelay
