import MulticastRelay.Proofs.Keyed
import MulticastRelay.Topology.Wildcard

/-! # The catalogue of groups

Groups are held under their handles, and a table apart from them leads from names to handles. The two
agree: a name that is listed leads to the group that bears it, and every group is listed under its
name. Each change to the groups is shown to keep this, so that neither a name without a group nor a
group without a name is ever left behind.
-/
namespace MulticastRelay

/-- The group with an interface as member and source. -/
def Group.reseat (id : InterfaceId) (g : Group) : Group :=
  { g.insertMember id with source := some id }

namespace Topology

variable {t u : Topology} {g k : Group} {gid : GroupId} {name : String}

structure Catalogued (t : Topology) : Prop where
  handles : (t.groups.map Group.id).Nodup
  issued : ∀ g ∈ t.groups, g.id.number ≤ t.lastGroup
  /-- A name stands in the table once, at its place. -/
  ordered : t.groupNames.Pairwise fun p q => p.1 < q.1
  listed : ∀ name gid, (name, gid) ∈ t.groupNames ↔ ∃ g ∈ t.groups, g.id = gid ∧ g.name = name

theorem empty_catalogued : Catalogued empty where
  handles := List.nodup_nil
  issued _ h := absurd h List.not_mem_nil
  ordered := List.Pairwise.nil
  listed _ _ := by simp [empty]

namespace Catalogued

/-! ## Lookups -/

theorem names_nodup (h : Catalogued t) : (t.groupNames.map Prod.fst).Nodup :=
  List.pairwise_map.2 (h.ordered.imp String.ne_of_lt)

theorem group?_eq (h : Catalogued t) : t.group? gid = some g ↔ g ∈ t.groups ∧ g.id = gid :=
  Keyed.get?_eq_some_iff h.handles

theorem handleOf?_eq (h : Catalogued t) :
    t.handleOf? name = some gid ↔ ∃ g ∈ t.groups, g.id = gid ∧ g.name = name :=
  (Keyed.lookup_eq_some_iff h.names_nodup).trans (h.listed name gid)

theorem groupNamed?_eq (h : Catalogued t) :
    t.groupNamed? name = some g ↔ g ∈ t.groups ∧ g.name = name := by
  unfold groupNamed?
  constructor
  · intro hg
    obtain ⟨gid, hid, hg⟩ := Option.bind_eq_some_iff.1 hg
    obtain ⟨k, hk, rfl, hn⟩ := h.handleOf?_eq.1 hid
    have hgk := h.group?_eq.2 ⟨hk, rfl⟩
    rw [hg] at hgk
    cases hgk
    exact ⟨hk, hn⟩
  · rintro ⟨hg, hn⟩
    exact Option.bind_eq_some_iff.2
      ⟨g.id, h.handleOf?_eq.2 ⟨g, hg, rfl, hn⟩, h.group?_eq.2 ⟨hg, rfl⟩⟩

theorem handleOf?_eq_map (h : Catalogued t) : t.handleOf? name = (t.groupNamed? name).map (·.id) := by
  apply Option.ext
  intro gid
  rw [h.handleOf?_eq, Option.map_eq_some_iff]
  simp only [h.groupNamed?_eq, and_assoc, and_comm (a := _ = gid)]

theorem groupNamed?_eq_none_iff (h : Catalogued t) :
    t.groupNamed? name = none ↔ ∀ g ∈ t.groups, g.name ≠ name := by
  simp only [Option.eq_none_iff_forall_ne_some, ne_eq, h.groupNamed?_eq, not_and]

theorem group_eq (h : Catalogued t) (hg : g ∈ t.groups) (hk : k ∈ t.groups) (hid : g.id = k.id) :
    g = k :=
  List.inj_on_of_nodup_map h.handles hg hk hid

/-- No two groups share a name: each of them is the one that it leads to. -/
theorem named_eq (h : Catalogued t) (hg : g ∈ t.groups) (hk : k ∈ t.groups)
    (hn : g.name = k.name) : g = k := by
  have hgn := h.groupNamed?_eq.2 ⟨hg, hn⟩
  have hkn := h.groupNamed?_eq.2 ⟨hk, rfl⟩
  exact Option.some.inj (hgn.symm.trans hkn)

theorem group_names (h : Catalogued t) : (t.groups.map Group.name).Nodup :=
  h.handles.of_map.map_on fun _ hg _ hk hn => h.named_eq hg hk hn

theorem unissued (h : Catalogued t) : ∀ k ∈ t.groups, k.id ≠ ⟨t.lastGroup + 1⟩ := by
  intro k hk he
  have hle := h.issued k hk
  rw [he] at hle
  exact Nat.not_succ_le_self _ hle

/-! ## Instances -/

/-- The handle that an instance is found under is that of the group of its name. -/
theorem instantiate_eq (h : Catalogued t) (template x : String) (source : InterfaceId) :
    t.instantiate template source x =
      match t.groupNamed? (instanceName template x) with
      | some g => .ok (g.id, t.modifyGroup g.id (Group.reseat source))
      | none =>
        match t.groupNamed? template with
        | none => .error (.unknownGroup template)
        | some base =>
          if base.mode = .push then
            .ok (⟨t.lastGroup + 1⟩,
              t.insertGroup (base.instantiate ⟨t.lastGroup + 1⟩ (instanceName template x) source))
          else .error (.notPushGroup template) := by
  unfold instantiate
  dsimp only
  rw [h.handleOf?_eq_map]
  cases t.groupNamed? (instanceName template x) <;> rfl

theorem instantiate_taken (h : Catalogued t) {template x : String} (source : InterfaceId)
    (hg : t.groupNamed? (instanceName template x) = some g) :
    t.instantiate template source x = .ok (g.id, t.modifyGroup g.id (Group.reseat source)) := by
  rw [h.instantiate_eq, hg]

theorem instantiate_made (h : Catalogued t) {template x : String} (source : InterfaceId)
    (hfree : t.groupNamed? (instanceName template x) = none)
    (hbase : t.groupNamed? template = some g) (hm : g.mode = .push) :
    t.instantiate template source x = .ok (⟨t.lastGroup + 1⟩,
      t.insertGroup (g.instantiate ⟨t.lastGroup + 1⟩ (instanceName template x) source)) := by
  rw [h.instantiate_eq, hfree, hbase]
  exact if_pos hm

/-! ## In order of name -/

/-- The names are those of the groups they lead to. -/
theorem groupsByName_names (h : Catalogued t) :
    t.groupsByName.map (fun g => (g.name, g.id)) = t.groupNames := by
  unfold groupsByName
  rw [List.map_filterMap]
  refine Eq.trans (List.filterMap_congr fun p hp => ?_) List.filterMap_some
  obtain ⟨g, hg, hid, hn⟩ := (h.listed p.1 p.2).1 hp
  have hfound : t.group? p.2 = some g := h.group?_eq.2 ⟨hg, hid⟩
  exact (congrArg (Option.map _) hfound).trans (congrArg some (Prod.ext hn hid))

theorem groupsByName_ordered (h : Catalogued t) : t.groupsByName.Pairwise fun g k => g.name < k.name := by
  have ho := h.ordered
  rw [← h.groupsByName_names, List.pairwise_map] at ho
  exact ho

theorem mem_groupsByName (h : Catalogued t) : g ∈ t.groupsByName ↔ g ∈ t.groups := by
  unfold groupsByName
  rw [List.mem_filterMap]
  constructor
  · rintro ⟨p, -, hg⟩
    exact (h.group?_eq.1 hg).1
  · intro hg
    exact ⟨(g.name, g.id), (h.listed _ _).2 ⟨g, hg, rfl, rfl⟩, h.group?_eq.2 ⟨hg, rfl⟩⟩

theorem groupsByName_perm (h : Catalogued t) : t.groupsByName.Perm t.groups := by
  refine (List.perm_ext_iff_of_nodup ?_ h.handles.of_map).2 fun g => h.mem_groupsByName
  exact h.groupsByName_ordered.imp fun hlt he => String.ne_of_lt hlt (congrArg Group.name he)

theorem named_handles_nodup (h : Catalogued t) : (t.groupNames.map Prod.snd).Nodup := by
  have hids := (h.groupsByName_perm.map Group.id).nodup_iff.2 h.handles
  rw [← h.groupsByName_names, List.map_map]
  exact hids

/-! ## Changes -/

/-- Interfaces and matchers do not matter. -/
theorem congr (h : Catalogued t) (hg : u.groups = t.groups) (hn : u.groupNames = t.groupNames)
    (hl : u.lastGroup = t.lastGroup) : Catalogued u where
  handles := hg ▸ h.handles
  issued := hg ▸ hl ▸ h.issued
  ordered := hn ▸ h.ordered
  listed := hg ▸ hn ▸ h.listed

end Catalogued

def regroup (t : Topology) (φ : Group → Group) : Topology := { t with groups := t.groups.map φ }

theorem modifyGroup_eq {f : Group → Group} :
    t.modifyGroup gid f = t.regroup fun g => if g.id = gid then f g else g := rfl

theorem regroup_handles {φ : Group → Group} (hid : ∀ g ∈ t.groups, (φ g).id = g.id) :
    (t.regroup φ).groups.map Group.id = t.groups.map Group.id := by
  unfold regroup
  rw [List.map_map]
  exact List.map_congr_left hid

/-- Groups that keep their handles and names are found as before. -/
theorem Catalogued.regroup (h : Catalogued t) {φ : Group → Group}
    (hφ : ∀ g ∈ t.groups, (φ g).id = g.id ∧ (φ g).name = g.name) : Catalogued (t.regroup φ) where
  handles := regroup_handles (fun g hg => (hφ g hg).1) ▸ h.handles
  issued k hk := by
    obtain ⟨g, hg, rfl⟩ := List.mem_map.1 hk
    rw [(hφ g hg).1]
    exact h.issued g hg
  ordered := h.ordered
  listed name gid := by
    refine (h.listed name gid).trans ⟨?_, ?_⟩
    · rintro ⟨g, hg, hid, hn⟩
      exact ⟨φ g, List.mem_map_of_mem hg, (hφ g hg).1.trans hid, (hφ g hg).2.trans hn⟩
    · rintro ⟨k, hk, hid, hn⟩
      obtain ⟨g, hg, rfl⟩ := List.mem_map.1 hk
      exact ⟨g, hg, (hφ g hg).1.symm.trans hid, (hφ g hg).2.symm.trans hn⟩

theorem insertGroup_perm (hn : ∀ k ∈ t.groups, k.id ≠ g.id) :
    (t.insertGroup g).groups.Perm (g :: t.groups) := by
  have hfree : Keyed.get? Group.id g.id t.groups = none := by
    rw [Keyed.get?_eq_none_iff, List.mem_map]
    rintro ⟨k, hk, he⟩
    exact hn k hk he
  have he : (t.insertGroup g).groups = t.groups ++ [g] := by
    simp only [insertGroup, Keyed.put, hfree, Option.isSome_none, Bool.false_eq_true, if_false]
  rw [he]
  exact List.perm_append_singleton g t.groups

theorem mem_insertGroup (hn : ∀ j ∈ t.groups, j.id ≠ g.id) :
    k ∈ (t.insertGroup g).groups ↔ k = g ∨ k ∈ t.groups :=
  (insertGroup_perm hn).mem_iff.trans List.mem_cons

theorem mem_bindGroupName {names : List (String × GroupId)} {p : String × GroupId} :
    p ∈ bindGroupName names name gid ↔ p = (name, gid) ∨ p ∈ names ∧ p.1 ≠ name := by
  have hp : (bindGroupName names name gid).Perm ((name, gid) :: Keyed.erase Prod.fst name names) := by
    refine Ascending.insert_perm fun q hq => ?_
    have hne : q.1 ≠ name := of_decide_eq_true (List.mem_filter.1 hq).2
    rcases Std.lt_trichotomy q.1 name with hlt | he | hgt
    · exact .inr (decide_eq_true hlt)
    · exact absurd he hne
    · exact .inl (decide_eq_true hgt)
  rw [hp.mem_iff, List.mem_cons, Keyed.erase, List.mem_filter, decide_eq_true_iff]

theorem bindGroupName_ordered {names : List (String × GroupId)}
    (h : names.Pairwise fun p q => p.1 < q.1) (name : String) (gid : GroupId) :
    (bindGroupName names name gid).Pairwise fun p q => p.1 < q.1 := by
  have hn : (Keyed.erase Prod.fst name names).Pairwise (nameBefore · ·) :=
    (h.filter _).imp decide_eq_true
  refine (Ascending.insert_pairwise (a := (name, gid)) ?_ hn).imp of_decide_eq_true
  intro _ _ _ hab hbc
  exact decide_eq_true (String.lt_trans (of_decide_eq_true hab) (of_decide_eq_true hbc))

/-- A group of a new handle and a free name is entered in both tables. -/
theorem Catalogued.insertGroup (h : Catalogued t) (hid : g.id = ⟨t.lastGroup + 1⟩)
    (hn : ∀ k ∈ t.groups, k.name ≠ g.name) : Catalogued (t.insertGroup g) := by
  have hp : (t.insertGroup g).groups.Perm (g :: t.groups) := insertGroup_perm (hid ▸ h.unissued)
  have hm : ∀ k, k ∈ (t.insertGroup g).groups ↔ k = g ∨ k ∈ t.groups := fun _ =>
    mem_insertGroup (hid ▸ h.unissued)
  exact
    { handles := by
        refine (hp.map Group.id).nodup_iff.2 (List.nodup_cons.2 ⟨fun hmem => ?_, h.handles⟩)
        obtain ⟨k, hk, he⟩ := List.mem_map.1 hmem
        exact h.unissued k hk (he.trans hid)
      issued := fun k hk => by
        rcases (hm k).1 hk with rfl | hk
        · rw [hid]
          exact Nat.le_refl _
        · exact Nat.le_succ_of_le (h.issued k hk)
      ordered := bindGroupName_ordered h.ordered g.name g.id
      listed := fun name gid => by
        refine mem_bindGroupName.trans ?_
        simp only [Prod.mk.injEq, h.listed, hm]
        constructor
        · rintro (⟨rfl, rfl⟩ | ⟨⟨k, hk, hkid, hkn⟩, -⟩)
          · exact ⟨g, .inl rfl, rfl, rfl⟩
          · exact ⟨k, .inr hk, hkid, hkn⟩
        · rintro ⟨k, rfl | hk, rfl, rfl⟩
          · exact .inl ⟨rfl, rfl⟩
          · exact .inr ⟨⟨k, hk, rfl, rfl⟩, hn k hk⟩ }

/-- A group that is dropped takes its name along. -/
theorem Catalogued.dropGroup (h : Catalogued t) (gid : GroupId) : Catalogued (t.dropGroup gid) := by
  unfold Topology.dropGroup
  cases hg : t.group? gid with
  | none => exact h
  | some g =>
    obtain ⟨hmem, rfl⟩ := h.group?_eq.1 hg
    exact
      { handles := h.handles.sublist (List.filter_sublist.map _)
        issued := fun k hk => h.issued k (List.mem_filter.1 hk).1
        ordered := h.ordered.filter _
        listed := fun name gid => by
          simp only [Keyed.erase, List.mem_filter, decide_eq_true_iff, h.listed, ne_eq]
          -- the dropped group is the one of its name as well as the one of its handle
          constructor
          · rintro ⟨⟨k, hk, hid, rfl⟩, hne⟩
            exact ⟨k, ⟨hk, fun he => hne (congrArg Group.name (h.group_eq hk hmem he))⟩, hid, rfl⟩
          · rintro ⟨k, ⟨hk, hne⟩, hid, rfl⟩
            exact ⟨⟨k, hk, hid, rfl⟩, fun he => hne (congrArg Group.id (h.named_eq hk hmem he))⟩ }

theorem Catalogued.removeInterface (h : Catalogued t) (id : InterfaceId) :
    Catalogued (t.removeInterface id) := by
  unfold Topology.removeInterface
  split
  · exact h
  · rename_i i hi
    have hstart : Catalogued { t with
        interfaces := Keyed.erase Interface.id id t.interfaces
        names := Keyed.erase Prod.fst i.name t.names } := h.congr rfl rfl rfl
    have hgone := List.foldlRecOn (motive := Catalogued) (t.derivedGroups id) Topology.dropGroup hstart
      fun _ hu gid _ => hu.dropGroup gid
    exact (hgone.regroup (φ := (·.removeMember id)) fun _ _ => ⟨rfl, rfl⟩).congr rfl rfl rfl

end Topology
end MulticastRelay
