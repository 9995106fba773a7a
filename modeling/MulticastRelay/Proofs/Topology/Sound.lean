import MulticastRelay.Proofs.Topology.Catalogue

/-! # Sound topologies

The tables of a topology agree: an index has one interface, a name answers for the interface or the
group that bears it, and members are interfaces. A change to interfaces alone and a change to groups
alone are each shown sound once, for every operation that is one of them.
-/
namespace MulticastRelay.Topology

variable {t u v : Topology} {id a b : InterfaceId} {gid : GroupId} {name x : String}

/-- The name of the interface of an index. -/
def nameOf? (t : Topology) (id : InterfaceId) : Option String := (t.interface? id).map (·.name)

structure Sound (t : Topology) : Prop extends Catalogued t where
  ids : (t.interfaces.map Interface.id).Nodup
  names : ∀ name id, t.holderOf? name = some id ↔ t.nameOf? id = some name
  present : ∀ g ∈ t.groups, ∀ id ∈ g.members, ∃ name, t.nameOf? id = some name
  sourced : ∀ g ∈ t.groups, ∀ id, g.source = some id → id ∈ g.members

/-- An edge leads from the first interface to the second. -/
def Linked (t : Topology) (a b : InterfaceId) : Prop := ∃ i, t.interface? a = some i ∧ b ∈ i.targets

theorem empty_sound : Sound empty where
  toCatalogued := empty_catalogued
  ids := List.nodup_nil
  names _ _ := by simp [empty, holderOf?, nameOf?, interface?, Keyed.get?]
  present _ h := absurd h List.not_mem_nil
  sourced _ h := absurd h List.not_mem_nil

namespace Sound

theorem nameOf?_inj (h : Sound t) (ha : t.nameOf? a = some x) (hb : t.nameOf? b = some x) :
    a = b := by
  have ha := (h.names x a).2 ha
  have hb := (h.names x b).2 hb
  exact Option.some.inj (ha.symm.trans hb)

theorem interface?_eq (h : Sound t) {i : Interface} :
    t.interface? id = some i ↔ i ∈ t.interfaces ∧ i.id = id :=
  Keyed.get?_eq_some_iff h.ids

theorem interfaceNamed?_eq (h : Sound t) {i : Interface} :
    t.interfaceNamed? name = some i ↔ t.interface? i.id = some i ∧ i.name = name := by
  unfold interfaceNamed?
  constructor
  · intro hi
    obtain ⟨id, hid, hi⟩ := Option.bind_eq_some_iff.1 hi
    have hn := (h.names name id).1 hid
    obtain ⟨hm, rfl⟩ := Keyed.get?_mem hi
    simp only [nameOf?, hi, Option.map_some, Option.some.injEq] at hn
    exact ⟨hi, hn⟩
  · rintro ⟨hi, hn⟩
    have hid : t.holderOf? name = some i.id := (h.names name i.id).2 (by simp [nameOf?, hi, hn])
    exact Option.bind_eq_some_iff.2 ⟨i.id, hid, hi⟩

end Sound

/-! ## Changes to interfaces -/

/-- The second topology has the groups of the first and all its interfaces under their names. -/
structure Extends (t u : Topology) : Prop where
  groups : u.groups = t.groups
  groupNames : u.groupNames = t.groupNames
  matchers : u.matchers = t.matchers
  lastGroup : u.lastGroup = t.lastGroup
  naming : ∀ id x, t.nameOf? id = some x → u.nameOf? id = some x

namespace Extends

/-- What soundness asks of the groups carries over. -/
theorem sound (h : Extends t u) (hs : Sound t) (hi : (u.interfaces.map Interface.id).Nodup)
    (hn : ∀ name id, u.holderOf? name = some id ↔ u.nameOf? id = some name) : Sound u where
  toCatalogued := hs.toCatalogued.congr h.groups h.groupNames h.lastGroup
  ids := hi
  names := hn
  present g hg id hid := by
    obtain ⟨x, hx⟩ := hs.present g (h.groups ▸ hg) id hid
    exact ⟨x, h.naming id x hx⟩
  sourced g hg := hs.sourced g (h.groups ▸ hg)

end Extends

/-- Interfaces changed in what neither soundness nor names depend on. -/
structure Recast (t u : Topology) : Prop where
  groups : u.groups = t.groups
  groupNames : u.groupNames = t.groupNames
  matchers : u.matchers = t.matchers
  lastGroup : u.lastGroup = t.lastGroup
  names : u.names = t.names
  ids : u.interfaces.map Interface.id = t.interfaces.map Interface.id
  naming : ∀ id, u.nameOf? id = t.nameOf? id

namespace Recast

theorem refl (t : Topology) : Recast t t := ⟨rfl, rfl, rfl, rfl, rfl, rfl, fun _ => rfl⟩

theorem trans (h : Recast t u) (k : Recast u v) : Recast t v where
  groups := k.groups.trans h.groups
  groupNames := k.groupNames.trans h.groupNames
  matchers := k.matchers.trans h.matchers
  lastGroup := k.lastGroup.trans h.lastGroup
  names := k.names.trans h.names
  ids := k.ids.trans h.ids
  naming id := (k.naming id).trans (h.naming id)

theorem toExtends (h : Recast t u) : Extends t u :=
  ⟨h.groups, h.groupNames, h.matchers, h.lastGroup, fun id _ hx => (h.naming id).trans hx⟩

theorem sound (h : Recast t u) (hs : Sound t) : Sound u := by
  refine h.toExtends.sound hs (h.ids ▸ hs.ids) fun name id => ?_
  rw [h.naming, ← hs.names name id, holderOf?, holderOf?, h.names]

end Recast

theorem interface?_modifyInterface {f : Interface → Interface}
    (hf : ∀ i, i.id = id → (f i).id = id) :
    (t.modifyInterface id f).interface? a =
      if a = id then (t.interface? id).map f else t.interface? a :=
  Keyed.get?_modify hf a

theorem modifyInterface_recast {f : Interface → Interface}
    (hf : ∀ i, t.interface? id = some i → (f i).name = i.name)
    (hid : ∀ i, i.id = id → (f i).id = id) :
    Recast t (t.modifyInterface id f) where
  groups := rfl
  groupNames := rfl
  matchers := rfl
  lastGroup := rfl
  names := rfl
  ids := Keyed.map_key_modify hid
  naming b := by
    unfold nameOf?
    rw [interface?_modifyInterface hid]
    by_cases hb : b = id
    · subst hb
      cases hi : t.interface? b with
      | none => simp
      | some i => simp [hf i hi]
    · simp [hb]

theorem linked_modifyInterface {f : Interface → Interface} (hid : ∀ i, i.id = id → (f i).id = id) :
    (t.modifyInterface id f).Linked a b ↔
      if a = id then ∃ i, t.interface? id = some i ∧ b ∈ (f i).targets else t.Linked a b := by
  unfold Linked
  rw [interface?_modifyInterface hid]
  by_cases ha : a = id
  · cases t.interface? id <;> simp [ha]
  · simp [ha]

/-- The index and the name are of one interface or of none. -/
def Fits (t : Topology) (id : InterfaceId) (name : String) : Prop :=
  ∀ a x, t.nameOf? a = some x → (a = id ↔ x = name)

theorem lookup_erase {names : List (String × InterfaceId)} :
    (Keyed.erase Prod.fst name names).lookup x = if x = name then none else names.lookup x := by
  induction names with
  | nil => simp [Keyed.erase]
  | cons p names ih =>
    obtain ⟨y, j⟩ := p
    unfold Keyed.erase at ih ⊢
    by_cases hy : y = name
    · subst hy
      by_cases hx : x = y
      · simpa [hx] using ih
      · have : (x == y) = false := by simpa using hx
        simpa [hx, List.lookup_cons, this] using ih
    · by_cases hx : x = y
      · subst hx
        simp [hy]
      · have : (x == y) = false := by simpa using hx
        simpa [hy, List.lookup_cons, this] using ih

theorem lookup_bindName {names : List (String × InterfaceId)} :
    (bindName names name id).lookup x = if x = name then some id else names.lookup x := by
  unfold bindName
  by_cases hx : x = name
  · simp [hx]
  · have : (x == name) = false := by simpa using hx
    simp [List.lookup_cons, this, lookup_erase, hx]

theorem insert_new (name : String) (h : (t.interfaces.map Interface.id).Nodup)
    (hi : t.interface? id = none) :
    (Ascending.insert Interface.before (.new id name) t.interfaces).Perm
      (.new id name :: t.interfaces) ∧
      ((Ascending.insert Interface.before (.new id name) t.interfaces).map Interface.id).Nodup := by
  have hfresh : id ∉ t.interfaces.map Interface.id := Keyed.get?_eq_none_iff.1 hi
  have hp : (Ascending.insert Interface.before (.new id name) t.interfaces).Perm
      (.new id name :: t.interfaces) := by
    refine Ascending.insert_perm fun j hj => ?_
    have hne : j.id ≠ id := fun he => hfresh (he ▸ List.mem_map_of_mem hj)
    have : j.id.index ≠ id.index := fun he => hne (congrArg InterfaceId.mk he)
    rcases Nat.lt_or_gt_of_ne this with hlt | hgt
    · exact .inr (decide_eq_true hlt)
    · exact .inl (decide_eq_true hgt)
  exact ⟨hp, (hp.map Interface.id).nodup_iff.2 (List.nodup_cons.2 ⟨hfresh, h⟩)⟩

/-- The interface of an index, after it was found or made. -/
theorem interface?_addInterface (h : Sound t) (hf : t.Fits id name) :
    ∃ i, i.id = id ∧ i.name = name ∧ (∀ b, b ∈ i.targets ↔ t.Linked id b) ∧
      ∀ a, (t.addInterface id name).interface? a = if a = id then some i else t.interface? a := by
  unfold addInterface
  cases hi : t.interface? id with
  | none =>
    refine ⟨.new id name, rfl, rfl, fun b => ?_, fun a => ?_⟩
    · simp [Interface.new, Interface.targets, Linked, hi]
    · obtain ⟨hp, hn⟩ := insert_new name h.ids hi
      have hg := Keyed.get?_of_perm_cons hp hn a
      simp only [Interface.new, eq_comm (a := id)] at hg
      exact hg
  | some i =>
    have hid := (Keyed.get?_mem hi).2
    have hname : i.name = name := (hf id i.name (by simp [nameOf?, hi])).1 rfl
    refine ⟨{ i with name }, hid, rfl, fun b => ?_, fun a => ?_⟩
    · simp [Linked, hi, Interface.targets]
    · have hm := interface?_modifyInterface (t := t) (a := a) (f := fun i => { i with name })
        fun j (hj : j.id = id) => hj
      rw [hi] at hm
      exact hm

theorem nameOf?_addInterface (h : Sound t) (hf : t.Fits id name) :
    (t.addInterface id name).nameOf? a = if a = id then some name else t.nameOf? a := by
  obtain ⟨i, -, hn, -, hi⟩ := interface?_addInterface h hf
  unfold nameOf?
  rw [hi a]
  by_cases ha : a = id <;> simp [ha, hn]

theorem linked_addInterface (h : Sound t) (hf : t.Fits id name) :
    (t.addInterface id name).Linked a b ↔ t.Linked a b := by
  obtain ⟨i, -, -, ht, hi⟩ := interface?_addInterface h hf
  unfold Linked
  rw [hi a]
  by_cases ha : a = id
  · subst ha
    simpa [Linked] using ht b
  · simp [ha]

theorem holderOf?_addInterface (hf : t.Fits id name) :
    (t.addInterface id name).holderOf? x = if x = name then some id else t.holderOf? x := by
  unfold addInterface
  cases hi : t.interface? id with
  | none => exact lookup_bindName
  | some i =>
    have hname : i.name = name := (hf id i.name (by simp [nameOf?, hi])).1 rfl
    simp only [hname, if_true]
    exact lookup_bindName

theorem addInterface_groups : (t.addInterface id name).groups = t.groups := by
  unfold addInterface
  split <;> rfl

theorem addInterface_groupNames : (t.addInterface id name).groupNames = t.groupNames := by
  unfold addInterface
  split <;> rfl

theorem addInterface_matchers : (t.addInterface id name).matchers = t.matchers := by
  unfold addInterface
  split <;> rfl

theorem addInterface_lastGroup : (t.addInterface id name).lastGroup = t.lastGroup := by
  unfold addInterface
  split <;> rfl

theorem addInterface_extends (h : Sound t) (hf : t.Fits id name) :
    Extends t (t.addInterface id name) where
  groups := addInterface_groups
  groupNames := addInterface_groupNames
  matchers := addInterface_matchers
  lastGroup := addInterface_lastGroup
  naming a y hy := by
    rw [nameOf?_addInterface h hf]
    by_cases ha : a = id
    · rw [if_pos ha, (hf a y hy).1 ha]
    · rw [if_neg ha, hy]

theorem addInterface_sound (h : Sound t) (hf : t.Fits id name) :
    Sound (t.addInterface id name) := by
  refine (addInterface_extends h hf).sound h ?_ fun y a => ?_
  · unfold addInterface
    cases hi : t.interface? id with
    | none =>
      exact (insert_new name h.ids hi).2
    | some i =>
      have hk : ((t.modifyInterface id fun i => { i with name }).interfaces.map Interface.id) =
          t.interfaces.map Interface.id := Keyed.map_key_modify fun _ h => h
      exact hk.symm ▸ h.ids
  · rw [holderOf?_addInterface hf, nameOf?_addInterface h hf]
    by_cases hy : y = name
    · by_cases ha : a = id
      · simp [hy, ha]
      · have hn : t.nameOf? a ≠ some name := fun he => ha ((hf a name he).2 rfl)
        simp [hy, ha, hn, Ne.symm ha]
    · by_cases ha : a = id
      · have hn : t.nameOf? id ≠ some y := fun he => hy ((hf id y he).1 rfl)
        simpa [hy, ha, Ne.symm hy, h.names] using hn
      · simpa [hy, ha] using h.names y a

/-! ## Changes to groups -/

/-- A change of groups that soundness survives. -/
structure Refits (t : Topology) (g k : Group) : Prop where
  id : k.id = g.id
  name : k.name = g.name
  present : ∀ m ∈ k.members, ∃ x, t.nameOf? m = some x
  sourced : ∀ s, k.source = some s → s ∈ k.members

theorem Sound.refits_self (h : Sound t) {g : Group} (hg : g ∈ t.groups) : Refits t g g :=
  ⟨rfl, rfl, h.present g hg, h.sourced g hg⟩

theorem regroup_sound (h : Sound t) {φ : Group → Group} (hφ : ∀ g ∈ t.groups, Refits t g (φ g)) :
    Sound (t.regroup φ) where
  toCatalogued := h.toCatalogued.regroup fun g hg => ⟨(hφ g hg).id, (hφ g hg).name⟩
  ids := h.ids
  names := h.names
  present k hk := by
    obtain ⟨g, hg, rfl⟩ := List.mem_map.1 hk
    exact (hφ g hg).present
  sourced k hk := by
    obtain ⟨g, hg, rfl⟩ := List.mem_map.1 hk
    exact (hφ g hg).sourced

/-- A group with the next handle and a name that is free. -/
structure Fresh (t : Topology) (g : Group) : Prop where
  id : g.id = ⟨t.lastGroup + 1⟩
  name : ∀ k ∈ t.groups, k.name ≠ g.name
  present : ∀ m ∈ g.members, ∃ x, t.nameOf? m = some x
  sourced : ∀ s, g.source = some s → s ∈ g.members

theorem insertGroup_sound {g : Group} (h : Sound t) (hg : Fresh t g) : Sound (t.insertGroup g) := by
  have hm : ∀ k, k ∈ (t.insertGroup g).groups ↔ k = g ∨ k ∈ t.groups := fun _ =>
    mem_insertGroup (hg.id ▸ h.unissued)
  exact
    { h.toCatalogued.insertGroup hg.id hg.name with
      ids := h.ids
      names := h.names
      present := fun k hk => by
        rcases (hm k).1 hk with rfl | hk
        · exact hg.present
        · exact h.present k hk
      sourced := fun k hk => by
        rcases (hm k).1 hk with rfl | hk
        · exact hg.sourced
        · exact h.sourced k hk }

end MulticastRelay.Topology
