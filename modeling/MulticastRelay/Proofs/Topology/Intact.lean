import MulticastRelay.Proofs.Topology.Resolution
import MulticastRelay.Proofs.Topology.Runs

/-! # Referential integrity

No table of a topology ever points into the void: edges lead to interfaces that exist and belong to
groups that exist, members are interfaces, and a name of a group leads to the group that bears it. Each
operation is shown to keep this from the few changes of tables that it is made of. Names of interfaces
need not be distinct here; a name may only answer for an interface that bears it.
-/
namespace MulticastRelay

theorem Ascending.insert_members {id : InterfaceId} {ids : List InterfaceId}
    (h : ids.Pairwise fun a b => a.before b = true) :
    (insert InterfaceId.before id ids).Pairwise fun a b => a.before b = true := by
  refine insert_pairwise (fun {a b c} hab hbc => ?_) h
  simp only [InterfaceId.before, decide_eq_true_eq] at hab hbc ⊢
  omega

namespace MatcherTable

/-- Every matcher stands in the bucket of its stem. -/
def Filed (t : MatcherTable) : Prop := ∀ b ∈ t.buckets, ∀ m ∈ b.rules, m.stem = b.stem

variable {t : MatcherTable}

theorem Filed.insert (h : t.Filed) (m : Matcher) : (t.insert m).2.Filed := by
  have hready : ∀ b ∈ Ascending.insert Bucket.before ⟨m.stem, []⟩ t.buckets,
      ∀ n ∈ b.rules, n.stem = b.stem := by
    intro b hb
    rcases Ascending.eq_or_mem_of_mem_insert hb with rfl | hb
    · exact fun n hn => absurd hn List.not_mem_nil
    · exact h b hb
  -- Either way one bucket changes, and what it gains has the stem of the new matcher.
  have hmodify : ∀ f : Bucket → Bucket,
      (∀ b, b.stem = m.stem → (∀ n ∈ b.rules, n.stem = b.stem) →
        ∀ n ∈ (f b).rules, n.stem = (f b).stem) →
      ∀ c ∈ Keyed.modify Bucket.stem m.stem f
        (Ascending.insert Bucket.before ⟨m.stem, []⟩ t.buckets), ∀ n ∈ c.rules, n.stem = c.stem := by
    intro f hf c hc
    obtain ⟨b, hb, rfl⟩ := Keyed.mem_modify.1 hc
    by_cases hs : b.stem = m.stem
    · rw [if_pos hs]
      exact hf b hs (hready b hb)
    · rw [if_neg hs]
      exact hready b hb
  unfold Filed
  rw [buckets_insert]
  split
  · refine hmodify _ fun b hs hb n hn => ?_
    have hstem := List.mem_map_of_mem (f := Matcher.stem) hn
    rw [Shelf.change, m.map_refresh fun _ => rfl] at hstem
    obtain ⟨k, hk, he⟩ := List.mem_map.1 hstem
    exact he.symm.trans (hb k hk)
  · refine hmodify _ fun b hs hb n hn => ?_
    rcases List.mem_append.1 hn with hn | hn
    · exact hb n hn
    · rw [List.mem_singleton.1 hn]
      exact hs.symm

theorem Filed.removeGroup (h : t.Filed) (group : String) : (t.removeGroup group).Filed := by
  intro c hc m hm
  rw [buckets_removeGroup] at hc
  obtain ⟨b, hb, rfl⟩ := List.mem_map.1 (List.mem_filter.1 hc).1
  exact h b hb m (List.mem_filter.1 hm).1

/-- A name finds exactly the matchers whose stem it starts with. -/
theorem Filed.mem_matching (h : t.Filed) {m : Matcher} {name : String} :
    m ∈ t.matching name ↔ m ∈ t.toList ∧ m.accepts name = true := by
  rw [matching_eq, toList_eq]
  unfold Matcher.accepts
  simp only [List.mem_flatMap, List.mem_filter, List.mem_reverse]
  constructor
  · rintro ⟨b, ⟨hb, hs⟩, hm⟩
    exact ⟨⟨b, hb, hm⟩, h b hb m hm ▸ hs⟩
  · rintro ⟨⟨b, hb, hm⟩, hs⟩
    exact ⟨b, ⟨hb, h b hb m hm ▸ hs⟩, hm⟩

end MatcherTable

namespace Topology

variable {t u : Topology} {id : InterfaceId} {gid : GroupId} {name : String} {g k : Group}
  {i j : Interface}

def Has (t : Topology) (id : InterfaceId) : Prop := id ∈ t.interfaces.map Interface.id

def HasGroup (t : Topology) (gid : GroupId) : Prop := gid ∈ t.groups.map Group.id

/-- The members of a group exist and stand in order, its source among them. -/
structure Peopled (t : Topology) (g : Group) : Prop where
  sorted : g.members.Pairwise fun a b => a.before b = true
  present : ∀ m ∈ g.members, t.Has m
  sourced : ∀ s, g.source = some s → s ∈ g.members

/-- An interface has one associate for each target at most, and both ends of it exist. -/
structure Moored (t : Topology) (i : Interface) : Prop where
  single : i.targets.Nodup
  target : ∀ a ∈ i.associates, a.target ≠ i.id ∧ t.Has a.target
  owner : ∀ a ∈ i.associates, t.HasGroup a.owner

structure Intact (t : Topology) : Prop extends Catalogued t where
  ids : (t.interfaces.map Interface.id).Nodup
  borne : ∀ name id, t.holderOf? name = some id → ∃ i ∈ t.interfaces, i.id = id ∧ i.name = name
  peopled : ∀ g ∈ t.groups, t.Peopled g
  moored : ∀ i ∈ t.interfaces, t.Moored i
  filed : t.matchers.Filed

theorem empty_intact : Intact empty where
  toCatalogued := empty_catalogued
  ids := List.nodup_nil
  borne _ _ h := by cases h
  peopled _ h := absurd h List.not_mem_nil
  moored _ h := absurd h List.not_mem_nil
  filed _ h := absurd h List.not_mem_nil

theorem has_iff : t.Has id ↔ ∃ i, t.interface? id = some i := by
  unfold Has interface?
  rw [← Option.isSome_iff_exists, ← Option.ne_none_iff_isSome, ne_eq, Keyed.get?_eq_none_iff,
    not_not]

theorem hasGroup_iff : t.HasGroup gid ↔ ∃ g, t.group? gid = some g := by
  unfold HasGroup group?
  rw [← Option.isSome_iff_exists, ← Option.ne_none_iff_isSome, ne_eq, Keyed.get?_eq_none_iff,
    not_not]

theorem Intact.interface?_eq (h : Intact t) :
    t.interface? id = some i ↔ i ∈ t.interfaces ∧ i.id = id :=
  Keyed.get?_eq_some_iff h.ids

theorem Peopled.mono (h : Peopled t g) (hi : ∀ id, t.Has id → u.Has id) : Peopled u g :=
  ⟨h.sorted, fun m hm => hi m (h.present m hm), h.sourced⟩

theorem Moored.mono (h : Moored t i) (hi : ∀ id, t.Has id → u.Has id)
    (hg : ∀ gid, t.HasGroup gid → u.HasGroup gid) : Moored u i :=
  ⟨h.single, fun a ha => ⟨(h.target a ha).1, hi _ (h.target a ha).2⟩, fun a ha => hg _ (h.owner a ha)⟩

/-- Only the index and the associates of an interface matter. -/
theorem Moored.congr (h : Moored t i) (hid : j.id = i.id) (ha : j.associates = i.associates) :
    Moored t j where
  single := by
    unfold Interface.targets
    rw [ha]
    exact h.single
  target a hm := hid.symm ▸ h.target a (ha ▸ hm)
  owner a hm := h.owner a (ha ▸ hm)

/-- Associates may be dropped when those that point into the void are among them. -/
theorem Moored.filter (h : Moored t i) (p : Associate → Bool)
    (hi : ∀ a, p a = true → t.Has a.target → u.Has a.target)
    (hg : ∀ a, p a = true → t.HasGroup a.owner → u.HasGroup a.owner) :
    Moored u { i with associates := i.associates.filter p } where
  single := List.Nodup.sublist (List.Sublist.map _ List.filter_sublist) h.single
  target a ha := by
    obtain ⟨ha, hp⟩ := List.mem_filter.1 ha
    exact ⟨(h.target a ha).1, hi a hp (h.target a ha).2⟩
  owner a ha := by
    obtain ⟨ha, hp⟩ := List.mem_filter.1 ha
    exact hg a hp (h.owner a ha)

/-! ## Changes to interfaces -/

def reface (t : Topology) (φ : Interface → Interface) : Topology :=
  { t with interfaces := t.interfaces.map φ }

theorem modifyInterface_eq {f : Interface → Interface} :
    t.modifyInterface id f = t.reface fun i => if i.id = id then f i else i := rfl

theorem Intact.reface (h : Intact t) {φ : Interface → Interface}
    (hφ : ∀ i ∈ t.interfaces, (φ i).id = i.id ∧ (φ i).name = i.name ∧ t.Moored (φ i)) :
    Intact (t.reface φ) := by
  have hids : (t.reface φ).interfaces.map Interface.id = t.interfaces.map Interface.id := by
    unfold Topology.reface
    rw [List.map_map]
    exact List.map_congr_left fun i hi => (hφ i hi).1
  have hhas : ∀ id, t.Has id → (t.reface φ).Has id := fun id hid => by
    unfold Has
    rw [hids]
    exact hid
  exact
    { h.toCatalogued.congr rfl rfl rfl with
      ids := hids ▸ h.ids
      borne := fun name id hn => by
        obtain ⟨i, hi, rfl, rfl⟩ := h.borne name id hn
        exact ⟨φ i, List.mem_map_of_mem hi, (hφ i hi).1, (hφ i hi).2.1⟩
      peopled := fun g hg => (h.peopled g hg).mono hhas
      moored := fun j hj => by
        obtain ⟨i, hi, rfl⟩ := List.mem_map.1 hj
        exact (hφ i hi).2.2.mono hhas fun _ hg => hg
      filed := h.filed }

theorem Intact.modifyInterface (h : Intact t) {f : Interface → Interface}
    (hf : ∀ i, t.interface? id = some i → (f i).id = i.id ∧ (f i).name = i.name ∧ t.Moored (f i)) :
    Intact (t.modifyInterface id f) := by
  rw [modifyInterface_eq]
  refine h.reface fun i hi => ?_
  by_cases hid : i.id = id
  · rw [if_pos hid]
    exact hf i (h.interface?_eq.2 ⟨hi, hid⟩)
  · rw [if_neg hid]
    exact ⟨rfl, rfl, h.moored i hi⟩

/-- What an interface carries apart from its edges may change freely. -/
theorem Intact.dress (h : Intact t) {f : Interface → Interface}
    (hf : ∀ i, (f i).id = i.id ∧ (f i).name = i.name ∧ (f i).associates = i.associates) :
    Intact (t.modifyInterface id f) := by
  refine h.modifyInterface fun i hi => ?_
  obtain ⟨hid, hn, ha⟩ := hf i
  exact ⟨hid, hn, (h.moored i (h.interface?_eq.1 hi).1).congr hid ha⟩

/-- A new interface brings no edges, and its name answers for it. -/
theorem Intact.addNew (h : Intact t) (hi : t.interface? id = none) (name : String) :
    Intact { t with
      interfaces := Ascending.insert Interface.before (.new id name) t.interfaces
      names := bindName t.names name id } := by
  obtain ⟨hp, hnodup⟩ := insert_new name h.ids hi
  have hmem : ∀ j, j ∈ Ascending.insert Interface.before (.new id name) t.interfaces ↔
      j = .new id name ∨ j ∈ t.interfaces := fun j => by rw [hp.mem_iff, List.mem_cons]
  have hhas : ∀ a, t.Has a →
      a ∈ (Ascending.insert Interface.before (.new id name) t.interfaces).map Interface.id := by
    intro a ha
    obtain ⟨j, hj, rfl⟩ := List.mem_map.1 ha
    exact List.mem_map_of_mem ((hmem j).2 (.inr hj))
  exact
    { h.toCatalogued.congr rfl rfl rfl with
      ids := hnodup
      borne := fun x a hx => by
        have hx : (bindName t.names name id).lookup x = some a := hx
        rw [lookup_bindName] at hx
        by_cases hn : x = name
        · rw [if_pos hn] at hx
          cases hx
          exact ⟨.new id name, (hmem _).2 (.inl rfl), rfl, hn.symm⟩
        · rw [if_neg hn] at hx
          obtain ⟨j, hj, hja⟩ := h.borne x a hx
          exact ⟨j, (hmem j).2 (.inr hj), hja⟩
      peopled := fun g hg => (h.peopled g hg).mono hhas
      moored := fun j hj => by
        rcases (hmem j).1 hj with rfl | hj
        · exact ⟨List.nodup_nil, fun a ha => absurd ha List.not_mem_nil,
            fun a ha => absurd ha List.not_mem_nil⟩
        · exact (h.moored j hj).mono hhas fun _ hg => hg
      filed := h.filed }

/-- A name that is not that of an interface answers for another one. -/
theorem Intact.borne_other (h : Intact t) (hi : t.interface? id = some i) {a : InterfaceId}
    (hn : t.holderOf? name = some a) (hne : name ≠ i.name) :
    ∃ j ∈ t.interfaces, j.id = a ∧ j.name = name ∧ j.id ≠ id := by
  obtain ⟨j, hj, hja, hjn⟩ := h.borne name a hn
  refine ⟨j, hj, hja, hjn, fun he => ?_⟩
  have hji := h.interface?_eq.2 ⟨hj, he⟩
  rw [hi] at hji
  cases hji
  exact hne hjn.symm

theorem lookup_vacated {names : List (String × InterfaceId)} {old x : String} {a : InterfaceId}
    (hx : (if old = name then names else Keyed.erase Prod.fst old names).lookup x = some a)
    (hn : x ≠ name) : names.lookup x = some a ∧ x ≠ old := by
  by_cases he : old = name
  · rw [if_pos he] at hx
    exact ⟨hx, he.symm ▸ hn⟩
  · rw [if_neg he, lookup_erase] at hx
    by_cases hne : x = old
    · rw [if_pos hne] at hx
      cases hx
    · rw [if_neg hne] at hx
      exact ⟨hx, hne⟩

/-- A renamed interface gives up the name it had, whoever answered to it. -/
theorem Intact.rename (h : Intact t) (hi : t.interface? id = some i) (name : String) :
    Intact { t.modifyInterface id (fun i => { i with name }) with
      names := bindName (if i.name = name then t.names else Keyed.erase Prod.fst i.name t.names)
        name id } := by
  obtain ⟨him, hid⟩ := h.interface?_eq.1 hi
  have hids : (Keyed.modify Interface.id id (fun i => { i with name }) t.interfaces).map
      Interface.id = t.interfaces.map Interface.id := Keyed.map_key_modify fun _ h => h
  have hhas : ∀ a, t.Has a →
      a ∈ (Keyed.modify Interface.id id (fun i => { i with name }) t.interfaces).map Interface.id := by
    intro a ha
    rw [hids]
    exact ha
  exact
    { h.toCatalogued.congr rfl rfl rfl with
      ids := hids ▸ h.ids
      borne := fun x a hx => by
        have hx : (bindName (if i.name = name then t.names else Keyed.erase Prod.fst i.name t.names)
            name id).lookup x = some a := hx
        rw [lookup_bindName] at hx
        by_cases hn : x = name
        · rw [if_pos hn] at hx
          cases hx
          exact ⟨{ i with name }, Keyed.mem_modify.2 ⟨i, him, (if_pos hid).symm⟩, hid, hn.symm⟩
        · rw [if_neg hn] at hx
          obtain ⟨hx, hxi⟩ := lookup_vacated hx hn
          obtain ⟨j, hj, hja, hjn, hne⟩ := h.borne_other hi hx hxi
          exact ⟨j, Keyed.mem_modify.2 ⟨j, hj, (if_neg hne).symm⟩, hja, hjn⟩
      peopled := fun g hg => (h.peopled g hg).mono hhas
      moored := fun j hj => by
        obtain ⟨k, hk, rfl⟩ := Keyed.mem_modify.1 hj
        refine Moored.congr ((h.moored k hk).mono hhas fun _ hg => hg) ?_ ?_
        · split <;> rfl
        · split <;> rfl
      filed := h.filed }

theorem Intact.addInterface (h : Intact t) (id : InterfaceId) (name : String) :
    Intact (t.addInterface id name) := by
  unfold Topology.addInterface
  cases hi : t.interface? id with
  | none => exact h.addNew hi name
  | some i => exact h.rename hi name

/-- The interface of an index, after it was found or made, has the edges it had. -/
theorem Intact.interface?_addInterface (h : Intact t) (id : InterfaceId) (name : String) :
    ∃ i, i.id = id ∧ i.name = name ∧
      i.associates = ((t.interface? id).map Interface.associates).getD [] ∧
      ∀ a, (t.addInterface id name).interface? a = if a = id then some i else t.interface? a := by
  unfold Topology.addInterface
  cases hi : t.interface? id with
  | none =>
    obtain ⟨hp, hn⟩ := insert_new name h.ids hi
    refine ⟨.new id name, rfl, rfl, rfl, fun a => ?_⟩
    have hg := Keyed.get?_of_perm_cons hp hn a
    simp only [Interface.new, eq_comm (a := id)] at hg
    exact hg
  | some i =>
    refine ⟨{ i with name }, (h.interface?_eq.1 hi).2, rfl, rfl, fun a => ?_⟩
    have hm := interface?_modifyInterface (t := t) (a := a) (f := fun i => { i with name })
      fun j (hj : j.id = id) => hj
    rw [hi] at hm
    exact hm

theorem Intact.addInterface_has (h : Intact t) (id : InterfaceId) (name : String) :
    (t.addInterface id name).Has id := by
  obtain ⟨i, -, -, -, hi⟩ := h.interface?_addInterface id name
  exact has_iff.2 ⟨i, by rw [hi, if_pos rfl]⟩

/-! ## Changes to groups -/

theorem Intact.regroup (h : Intact t) {φ : Group → Group}
    (hφ : ∀ g ∈ t.groups, (φ g).id = g.id ∧ (φ g).name = g.name ∧ t.Peopled (φ g)) :
    Intact (t.regroup φ) := by
  have hids : (t.regroup φ).groups.map Group.id = t.groups.map Group.id :=
    regroup_handles fun g hg => (hφ g hg).1
  exact
    { h.toCatalogued.regroup fun g hg => ⟨(hφ g hg).1, (hφ g hg).2.1⟩ with
      ids := h.ids
      borne := h.borne
      peopled := fun k hk => by
        obtain ⟨g, hg, rfl⟩ := List.mem_map.1 hk
        exact (hφ g hg).2.2.mono fun _ hid => hid
      moored := fun i hi => (h.moored i hi).mono (fun _ hid => hid) fun gid hg => by
        unfold HasGroup
        rw [hids]
        exact hg
      filed := h.filed }

theorem Intact.modifyGroup (h : Intact t) {f : Group → Group}
    (hf : ∀ g, t.group? gid = some g → (f g).id = g.id ∧ (f g).name = g.name ∧ t.Peopled (f g)) :
    Intact (t.modifyGroup gid f) := by
  rw [modifyGroup_eq]
  refine h.regroup fun g hg => ?_
  by_cases hid : g.id = gid
  · rw [if_pos hid]
    exact hf g (h.group?_eq.2 ⟨hg, hid⟩)
  · rw [if_neg hid]
    exact ⟨rfl, rfl, h.peopled g hg⟩

theorem Intact.insertGroup (h : Intact t) (hid : g.id = ⟨t.lastGroup + 1⟩)
    (hn : ∀ k ∈ t.groups, k.name ≠ g.name) (hg : t.Peopled g) : Intact (t.insertGroup g) := by
  have hm : ∀ k, k ∈ (t.insertGroup g).groups ↔ k = g ∨ k ∈ t.groups := fun _ =>
    mem_insertGroup (hid ▸ h.unissued)
  exact
    { h.toCatalogued.insertGroup hid hn with
      ids := h.ids
      borne := h.borne
      peopled := fun k hk => by
        rcases (hm k).1 hk with rfl | hk
        · exact hg.mono fun _ hid => hid
        · exact (h.peopled k hk).mono fun _ hid => hid
      moored := fun i hi => (h.moored i hi).mono (fun _ hid => hid) fun gid hmem => by
        obtain ⟨k, hk, rfl⟩ := List.mem_map.1 hmem
        exact List.mem_map_of_mem ((hm k).2 (.inr hk))
      filed := h.filed }

theorem Intact.matchers (h : Intact t) {table : MatcherTable} (hf : table.Filed) :
    Intact { t with matchers := table } where
  toCatalogued := h.toCatalogued.congr rfl rfl rfl
  ids := h.ids
  borne := h.borne
  peopled g hg := (h.peopled g hg).mono fun _ hid => hid
  moored i hi := (h.moored i hi).mono (fun _ hid => hid) fun _ hg => hg
  filed := hf

theorem Peopled.insertMember (h : Peopled t g) (hid : t.Has id) : Peopled t (g.insertMember id) where
  sorted := Ascending.insert_members h.sorted
  present m hm := by
    rcases Group.mem_insertMember.1 hm with rfl | hm
    · exact hid
    · exact h.present m hm
  sourced s hs := Group.mem_insertMember.2 (.inr (h.sourced s hs))

theorem Peopled.removeMember (h : Peopled t g) (id : InterfaceId) : Peopled t (g.removeMember id) where
  sorted := h.sorted.filter _
  present m hm := h.present m (List.mem_filter.1 hm).1
  sourced s hs := by
    have hs : (if g.source = some id then none else g.source) = some s := hs
    by_cases hid : g.source = some id
    · rw [if_pos hid] at hs
      cases hs
    · rw [if_neg hid] at hs
      have hne : s ≠ id := fun he => hid (he ▸ hs)
      exact List.mem_filter.2 ⟨h.sourced s hs, decide_eq_true hne⟩

/-- A group without a source of its own answers for its members only. -/
theorem Peopled.unsourced (h : Peopled t g) (hm : k.members = g.members)
    (hs : k.source = none ∨ k.source = g.source) : Peopled t k where
  sorted := hm ▸ h.sorted
  present m hk := h.present m (hm ▸ hk)
  sourced s hk := by
    rcases hs with hs | hs
    · rw [hs] at hk
      cases hk
    · rw [hm]
      exact h.sourced s (hs ▸ hk)

theorem Intact.addGroup (h : Intact t) (name : String) (mode : Mode) (relay : RelayType) :
    Intact (t.addGroup name mode relay).2 := by
  unfold Topology.addGroup
  cases hg : t.groupNamed? name with
  | none =>
    refine h.insertGroup (g := { id := ⟨t.lastGroup + 1⟩, name, mode, relayType := relay }) rfl
      (h.groupNamed?_eq_none_iff.1 hg) ⟨.nil, ?_, ?_⟩
    · exact fun m hm => absurd hm List.not_mem_nil
    · exact fun s hs => by cases hs
  | some g =>
    dsimp only
    split
    · exact h
    · refine h.modifyGroup fun k hk => ?_
      have hp := h.peopled k (h.group?_eq.1 hk).1
      unfold Group.setMode
      by_cases hm : mode = .push
      · rw [if_pos hm]
        exact ⟨rfl, rfl, hp.unsourced rfl (.inr rfl)⟩
      · rw [if_neg hm]
        exact ⟨rfl, rfl, hp.unsourced rfl (.inl rfl)⟩

theorem Intact.addMember (h : Intact t) {role : Role} (hu : t.addMember gid id role = .ok u) :
    Intact u := by
  unfold Topology.addMember at hu
  split at hu
  · cases hu
  · rename_i hi
    have hhas : t.Has id := has_iff.2 (Option.ne_none_iff_exists'.1 (by simpa using hi))
    split at hu
    · cases hu
    · cases hu
      refine h.modifyGroup fun k hk => ?_
      have hp := (h.peopled k (h.group?_eq.1 hk).1).insertMember hhas
      dsimp only
      split
      · refine ⟨rfl, rfl, hp.sorted, hp.present, fun s hs => ?_⟩
        cases hs
        exact Group.mem_insertMember.2 (.inl rfl)
      · exact ⟨rfl, rfl, hp⟩

theorem Intact.addMatcher (h : Intact t) {stem : String} {role : Role} {r : Matcher × Topology}
    (hr : t.addMatcher gid stem role = .ok r) : Intact r.2 := by
  unfold Topology.addMatcher at hr
  split at hr
  · cases hr
  · cases hr
    dsimp only
    split
    · have hm : Intact (t.modifyGroup gid Group.makeTemplate) := h.modifyGroup fun k hk =>
        ⟨rfl, rfl, (h.peopled k (h.group?_eq.1 hk).1).unsourced rfl (.inl rfl)⟩
      exact hm.matchers (hm.filed.insert _)
    · exact h.matchers (h.filed.insert _)

/-! ## Removals -/

/-- The names of the groups of some handles. -/
def namesOf (t : Topology) (gids : List GroupId) : List String :=
  gids.filterMap fun gid => (t.group? gid).map (·.name)

/-- No interface has an edge of this owner. -/
def Edgeless (t : Topology) (gid : GroupId) : Prop :=
  ∀ i ∈ t.interfaces, ∀ a ∈ i.associates, a.owner ≠ gid

theorem dropGroup_of_none (hg : t.group? gid = none) : t.dropGroup gid = t := by
  unfold dropGroup
  rw [hg]

theorem dropGroup_eq (hg : t.group? gid = some g) :
    t.dropGroup gid =
      { t with
        groups := Keyed.erase Group.id gid t.groups
        groupNames := Keyed.erase Prod.fst g.name t.groupNames
        interfaces := t.interfaces.map (·.dropOwned gid) } := by
  unfold dropGroup
  rw [hg]

theorem mem_groups_dropGroup : k ∈ (t.dropGroup gid).groups ↔ k ∈ t.groups ∧ k.id ≠ gid := by
  cases hg : t.group? gid with
  | none =>
    rw [dropGroup_of_none hg]
    exact (and_iff_left_of_imp fun hk he =>
      Keyed.get?_eq_none_iff.1 hg (List.mem_map.2 ⟨k, hk, he⟩)).symm
  | some g =>
    rw [dropGroup_eq hg]
    exact List.mem_filter.trans (and_congr_right fun _ => decide_eq_true_iff)

theorem group?_dropGroup (hg : t.group? gid = some g) (o : GroupId) :
    (t.dropGroup gid).group? o = if o = gid then none else t.group? o := by
  rw [dropGroup_eq hg]
  exact Keyed.get?_erase o

theorem interface?_dropGroup (hg : t.group? gid = some g) (a : InterfaceId) :
    (t.dropGroup gid).interface? a = (t.interface? a).map (·.dropOwned gid) := by
  rw [dropGroup_eq hg]
  exact Keyed.get?_map fun _ => rfl

theorem dropGroup_edgeless (hg : t.group? gid = some g) : (t.dropGroup gid).Edgeless gid := by
  rw [dropGroup_eq hg]
  intro i hi a ha
  obtain ⟨j, -, rfl⟩ := List.mem_map.1 hi
  exact of_decide_eq_true (List.mem_filter.1 ha).2

theorem Edgeless.dropGroup {o : GroupId} (h : t.Edgeless o) (gid : GroupId) :
    (t.dropGroup gid).Edgeless o := by
  cases hg : t.group? gid with
  | none => rwa [dropGroup_of_none hg]
  | some g =>
    rw [dropGroup_eq hg]
    intro i hi a ha
    obtain ⟨j, hj, rfl⟩ := List.mem_map.1 hi
    exact h j hj a (List.mem_filter.1 ha).1

/-- A name is dropped with the first of its handles. -/
theorem mem_namesOf_dropGroup (hg : t.group? gid = some g) (hn : name ≠ g.name)
    (gids : List GroupId) : name ∈ (t.dropGroup gid).namesOf gids ↔ name ∈ t.namesOf gids := by
  unfold namesOf
  simp only [List.mem_filterMap, group?_dropGroup hg]
  refine exists_congr fun o => and_congr_right fun _ => ?_
  by_cases ho : o = gid
  · rw [if_pos ho, ho, hg]
    simp [Ne.symm hn]
  · rw [if_neg ho]

/-- Groups go with their names and their edges. One that is gone already had no edges left. -/
theorem foldl_dropGroup (gids : List GroupId) (t : Topology)
    (h : ∀ gid ∈ gids, t.HasGroup gid ∨ t.Edgeless gid) :
    gids.foldl dropGroup t =
      { t with
        groups := t.groups.filter fun g => g.id ∉ gids
        groupNames := t.groupNames.filter fun p => p.1 ∉ t.namesOf gids
        interfaces := t.interfaces.map fun i =>
          { i with associates := i.associates.filter fun a => a.owner ∉ gids } } := by
  induction gids generalizing t with
  | nil => simp [namesOf]
  | cons gid gids ih =>
    have hrest := fun o ho => h o (List.mem_cons_of_mem gid ho)
    rw [List.foldl_cons]
    cases hg : t.group? gid with
    | none =>
      have hless : t.Edgeless gid := (h gid List.mem_cons_self).resolve_left fun hhas => by
        obtain ⟨g, hfound⟩ := hasGroup_iff.1 hhas
        rw [hg] at hfound
        cases hfound
      rw [dropGroup_of_none hg, ih t hrest]
      congr 1
      · refine List.map_congr_left fun i hi => ?_
        congr 1
        exact List.filter_congr fun a ha => by simp [hless i hi a ha]
      · refine List.filter_congr fun k hk => ?_
        have hne : k.id ≠ gid := fun he => Keyed.get?_eq_none_iff.1 hg (List.mem_map.2 ⟨k, hk, he⟩)
        simp [hne]
      · simp [namesOf, hg]
    | some g =>
      have hleft : ∀ o ∈ gids, (t.dropGroup gid).HasGroup o ∨ (t.dropGroup gid).Edgeless o := by
        intro o ho
        by_cases he : o = gid
        · rw [he]
          exact .inr (dropGroup_edgeless hg)
        · refine (hrest o ho).imp (fun hhas => ?_) (·.dropGroup gid)
          rw [hasGroup_iff, group?_dropGroup hg, if_neg he]
          exact hasGroup_iff.1 hhas
      have hnames : ∀ p ∈ t.groupNames,
          (decide (p.1 ∉ (t.dropGroup gid).namesOf gids) && decide (p.1 ≠ g.name)) =
            decide (p.1 ∉ t.namesOf (gid :: gids)) := by
        intro p _
        have hcons : t.namesOf (gid :: gids) = g.name :: t.namesOf gids := by simp [namesOf, hg]
        rw [hcons]
        by_cases hp : p.1 = g.name
        · simp [hp]
        · simp [hp, mem_namesOf_dropGroup hg hp]
      rw [ih _ hleft, ← List.filter_congr hnames, dropGroup_eq hg]
      simp only [Keyed.erase, Interface.dropOwned, List.filter_filter, List.map_map, List.mem_cons,
        not_or, Bool.decide_and, Function.comp_def, Bool.and_comm]

/-- An interface once another one and some groups are gone. -/
def survivor (id : InterfaceId) (gone : List GroupId) (i : Interface) : Interface :=
  { i with associates := i.associates.filter fun a => a.owner ∉ gone ∧ a.target ≠ id }

theorem removeInterface_eq (hi : t.interface? id = some i) :
    t.removeInterface id =
      { t with
        interfaces := (Keyed.erase Interface.id id t.interfaces).map (survivor id (t.derivedGroups id))
        names := Keyed.erase Prod.fst i.name t.names
        groups := (t.groups.filter fun g => g.id ∉ t.derivedGroups id).map (·.removeMember id)
        groupNames := t.groupNames.filter fun p => p.1 ∉ t.namesOf (t.derivedGroups id) } := by
  unfold removeInterface
  rw [hi]
  dsimp only
  have hhas : ∀ gid ∈ t.derivedGroups id, t.HasGroup gid := by
    intro gid hgid
    obtain ⟨g, hg, rfl⟩ := List.mem_map.1 hgid
    exact List.mem_map_of_mem (List.mem_filter.1 hg).1
  have hdrop := foldl_dropGroup (t.derivedGroups id)
    { t with
      interfaces := Keyed.erase Interface.id id t.interfaces
      names := Keyed.erase Prod.fst i.name t.names } fun gid hgid => .inl (hhas gid hgid)
  have hs : ∀ gone, ((fun i : Interface => i.dropTowards id) ∘ fun i : Interface =>
      { i with associates := i.associates.filter fun a => a.owner ∉ gone }) = survivor id gone := by
    intro gone
    funext i
    simp [Interface.dropTowards, survivor, List.filter_filter, and_comm]
  unfold derivedGroups at hdrop ⊢
  dsimp only at hdrop ⊢
  rw [hdrop]
  dsimp only
  rw [List.map_map, hs]
  rfl

theorem removeInterface_of_none (hi : t.interface? id = none) : t.removeInterface id = t := by
  unfold removeInterface
  rw [hi]

theorem Intact.removeInterface (h : Intact t) (id : InterfaceId) : Intact (t.removeInterface id) := by
  cases hi : t.interface? id with
  | none => rwa [removeInterface_of_none hi]
  | some i =>
    have hcatalogued := h.toCatalogued.removeInterface id
    rw [removeInterface_eq hi] at hcatalogued ⊢
    have hids : ((Keyed.erase Interface.id id t.interfaces).map
        (survivor id (t.derivedGroups id))).map Interface.id =
        (Keyed.erase Interface.id id t.interfaces).map Interface.id := by
      rw [List.map_map]
      rfl
    have hhas : ∀ a, a ≠ id → t.Has a → a ∈ ((Keyed.erase Interface.id id t.interfaces).map
        (survivor id (t.derivedGroups id))).map Interface.id := by
      intro a hne ha
      obtain ⟨j, hj, rfl⟩ := List.mem_map.1 ha
      rw [hids]
      exact List.mem_map_of_mem (List.mem_filter.2 ⟨hj, decide_eq_true hne⟩)
    exact
      { hcatalogued with
        ids := hids ▸ List.Nodup.sublist (List.Sublist.map _ List.filter_sublist) h.ids
        borne := fun x a hx => by
          have hx : (Keyed.erase Prod.fst i.name t.names).lookup x = some a := hx
          rw [lookup_erase] at hx
          split at hx
          · cases hx
          · rename_i hn
            obtain ⟨j, hj, hja, hjn, hne⟩ := h.borne_other hi hx hn
            exact ⟨survivor id (t.derivedGroups id) j,
              List.mem_map_of_mem (List.mem_filter.2 ⟨hj, decide_eq_true hne⟩), hja, hjn⟩
        peopled := fun k hk => by
          obtain ⟨g, hg, rfl⟩ := List.mem_map.1 hk
          have hp := (h.peopled g (List.mem_filter.1 hg).1).removeMember id
          refine ⟨hp.sorted, fun m hm => hhas m ?_ (hp.present m hm), hp.sourced⟩
          exact of_decide_eq_true (List.mem_filter.1 hm).2
        moored := fun k hk => by
          obtain ⟨j, hj, rfl⟩ := List.mem_map.1 hk
          refine (h.moored j (List.mem_filter.1 hj).1).filter _ (fun a ha => ?_) fun a ha hg => ?_
          · exact hhas a.target (of_decide_eq_true ha).2
          · obtain ⟨g, hg, he⟩ := List.mem_map.1 hg
            refine List.mem_map.2 ⟨g.removeMember id, List.mem_map_of_mem ?_, he⟩
            refine List.mem_filter.2 ⟨hg, decide_eq_true ?_⟩
            rw [he]
            exact (of_decide_eq_true ha).1
        filed := h.filed }

theorem Intact.dropGroup (h : Intact t) (gid : GroupId) : Intact (t.dropGroup gid) := by
  cases hg : t.group? gid with
  | none => rwa [dropGroup_of_none hg]
  | some g =>
    have hcatalogued := h.toCatalogued.dropGroup gid
    rw [dropGroup_eq hg] at hcatalogued ⊢
    have hids : (t.interfaces.map (·.dropOwned gid)).map Interface.id =
        t.interfaces.map Interface.id := by
      rw [List.map_map]
      rfl
    have hhas : ∀ a, t.Has a → a ∈ (t.interfaces.map (·.dropOwned gid)).map Interface.id :=
      fun a ha => hids.symm ▸ ha
    exact
      { hcatalogued with
        ids := hids ▸ h.ids
        borne := fun x a hx => by
          obtain ⟨j, hj, hja⟩ := h.borne x a hx
          exact ⟨j.dropOwned gid, List.mem_map_of_mem hj, hja⟩
        peopled := fun k hk => (h.peopled k (List.mem_filter.1 hk).1).mono hhas
        moored := fun k hk => by
          obtain ⟨j, hj, rfl⟩ := List.mem_map.1 hk
          refine (h.moored j hj).filter _ (fun a _ => hhas a.target) fun a ha ho => ?_
          obtain ⟨l, hl, he⟩ := List.mem_map.1 ho
          refine List.mem_map.2 ⟨l, List.mem_filter.2 ⟨hl, decide_eq_true ?_⟩, he⟩
          rw [he]
          exact of_decide_eq_true ha
        filed := h.filed }

theorem Intact.removeOrphans (h : Intact t) (ids : List InterfaceId) :
    Intact (t.removeOrphans ids).2 := by
  induction ids generalizing t with
  | nil => exact h
  | cons id ids ih =>
    refine ih (t := (t.removeIfOrphan id).2) ?_
    unfold removeIfOrphan
    split
    · exact h.removeInterface id
    · exact h

theorem Intact.removeGroup (h : Intact t) {r : List InterfaceId × Topology}
    (hu : t.removeGroup gid = .ok r) : Intact r.2 := by
  unfold Topology.removeGroup at hu
  split at hu
  · cases hu
  · cases hu
    exact ((h.matchers (h.filed.removeGroup _)).dropGroup gid).removeOrphans _

theorem Intact.removeMember (h : Intact t) {r : Bool × Topology}
    (hu : t.removeMember gid id = .ok r) : Intact r.2 := by
  have hm : Intact (t.modifyGroup gid (·.removeMember id)) := h.modifyGroup fun k hk =>
    ⟨rfl, rfl, (h.peopled k (h.group?_eq.1 hk).1).removeMember id⟩
  unfold Topology.removeMember at hu
  split at hu
  · cases hu
  · split at hu
    · cases hu
    · dsimp only at hu
      split at hu
      · cases hu
        exact hm.removeInterface id
      · cases hu
        exact hm

/-! ## Passes and resolution -/

theorem Moored.connect (h : Moored t i) {owner : GroupId} {b : InterfaceId} (hne : b ≠ i.id)
    (hb : t.Has b) (ho : t.HasGroup owner) : Moored t (i.connect owner b).2 := by
  unfold Interface.connect
  cases ha : i.associate? b with
  | some a => exact h
  | none =>
    have hfree : b ∉ i.targets := Keyed.get?_eq_none_iff.1 ha
    refine ⟨?_, fun a ha => ?_, fun a ha => ?_⟩
    · unfold Interface.targets
      rw [List.map_append]
      refine List.Nodup.append h.single (List.nodup_singleton b) fun c hc hb => ?_
      rw [List.mem_singleton.1 hb] at hc
      exact hfree hc
    · rcases List.mem_append.1 ha with ha | ha
      · exact h.target a ha
      · cases List.mem_singleton.1 ha
        exact ⟨hne, hb⟩
    · rcases List.mem_append.1 ha with ha | ha
      · exact h.owner a ha
      · cases List.mem_singleton.1 ha
        exact ho

theorem connect_groups (owner : GroupId) (e : Edge) (tally : AssociationTally) :
    (t.connect owner e tally).1.groups = t.groups := by
  unfold connect
  split <;> rfl

theorem Intact.connect (h : Intact t) {owner : GroupId} (ho : t.HasGroup owner) {e : Edge}
    (hne : e.2 ≠ e.1) (tally : AssociationTally) : Intact (t.connect owner e tally).1 := by
  unfold Topology.connect
  split
  · rename_i target source ht hs
    obtain ⟨hm, hid⟩ := h.interface?_eq.1 hs
    refine h.modifyInterface fun j hj => ?_
    rw [hs] at hj
    cases hj
    obtain ⟨hci, hcn⟩ := source.connect_id owner e.2
    exact ⟨hci, hcn, (h.moored source hm).connect (hid ▸ hne) (has_iff.2 ⟨target, ht⟩) ho⟩
  · exact h

theorem Intact.connectAll (h : Intact t) {owner : GroupId} (ho : t.HasGroup owner)
    {edges : List Edge} (hne : ∀ e ∈ edges, e.2 ≠ e.1) :
    Intact (t.connectAll owner edges).1 ∧ (t.connectAll owner edges).1.groups = t.groups := by
  unfold Topology.connectAll
  refine List.foldlRecOn edges _
    (motive := fun s : Topology × AssociationTally => Intact s.1 ∧ s.1.groups = t.groups) ⟨h, rfl⟩ ?_
  rintro ⟨u, tally⟩ ⟨hu, hg⟩ e he
  have ho : u.HasGroup owner := by
    unfold HasGroup
    rw [hg]
    exact ho
  exact ⟨hu.connect ho (hne e he) tally, (connect_groups owner e tally).trans hg⟩

theorem Intact.updateCapture (h : Intact t) (ids : List InterfaceId) : Intact (t.updateCapture ids) :=
  List.foldlRecOn ids _ h fun _ hu _ _ => hu.dress fun _ => ⟨rfl, rfl, rfl⟩

theorem Intact.associate (h : Intact t) (gid : GroupId) : Intact (t.associate gid).2 := by
  unfold Topology.associate
  split
  · exact h
  · rename_i g hg
    have hne : ∀ e ∈ g.edges, e.2 ≠ e.1 := fun e he => (Group.mem_edges.1 he).2.2
    exact (h.connectAll (hasGroup_iff.2 ⟨g, hg⟩) hne).1.updateCapture g.members

theorem Intact.associateAll (h : Intact t) (gids : List GroupId) : Intact (t.associateAll gids).2 := by
  rw [associateAll_snd]
  exact List.foldlRecOn gids _ h fun _ hu gid _ => hu.associate gid

theorem Intact.instantiate (h : Intact t) {template x : String} {r : GroupId × Topology}
    (hid : t.Has id) (hu : t.instantiate template id x = .ok r) : Intact r.2 := by
  rw [h.instantiate_eq] at hu
  split at hu
  · cases hu
    refine h.modifyGroup fun k hk => ?_
    have hp := (h.peopled k (h.group?_eq.1 hk).1).insertMember hid
    refine ⟨rfl, rfl, hp.sorted, hp.present, fun s hs => ?_⟩
    cases hs
    exact Group.mem_insertMember.2 (.inl rfl)
  · rename_i hfree
    split at hu
    · cases hu
    · rename_i base hb
      split at hu
      · cases hu
        have hp := (h.peopled base (h.groupNamed?_eq.1 hb).1).insertMember hid
        refine h.insertGroup (g := base.instantiate ⟨t.lastGroup + 1⟩ (instanceName template x) id) rfl
          (h.groupNamed?_eq_none_iff.1 hfree) ⟨hp.sorted, hp.present, fun s hs => ?_⟩
        cases hs
        exact Group.mem_insertMember.2 (.inl rfl)
      · cases hu

theorem Intact.joinAll (h : Intact t) (hid : t.Has id) (gids : List GroupId) :
    Intact (t.joinAll gids id) := by
  unfold Topology.joinAll
  refine (List.foldlRecOn gids _ (motive := fun u => Intact u ∧ u.Has id) ⟨h, hid⟩ ?_).1
  rintro u ⟨hu, hid⟩ gid -
  refine ⟨hu.modifyGroup fun k hk => ?_, hid⟩
  have hp := hu.peopled k (hu.group?_eq.1 hk).1
  split
  · exact ⟨rfl, rfl, hp⟩
  · exact ⟨rfl, rfl, hp.insertMember hid⟩

theorem Intact.resolve (h : Intact t) (m : Matcher) (link : Link) : Intact (t.resolve m link).2 := by
  have ha := h.addInterface ⟨link.index⟩ link.name
  have hid := h.addInterface_has ⟨link.index⟩ link.name
  -- Whatever groups were touched, the passes and the removal of an orphan follow.
  have hrest : ∀ (touched : List GroupId) (u : Topology), Intact u →
      Intact (if ((u.associateAll touched).2.groupsOf ⟨link.index⟩).isEmpty then
        (u.associateAll touched).2.removeInterface ⟨link.index⟩ else (u.associateAll touched).2) := by
    intro touched u hu
    split
    · exact (hu.associateAll touched).removeInterface _
    · exact hu.associateAll touched
  unfold Topology.resolve
  cases hr : m.role with
  | source =>
    dsimp only
    cases hi : (t.addInterface ⟨link.index⟩ link.name).instantiate m.group ⟨link.index⟩ link.name with
    | error e => exact ha
    | ok r =>
      have := hrest [r.1] r.2 (ha.instantiate hid hi)
      simp only [Except.map]
      split <;> exact this
  | destination =>
    dsimp only
    split
    · rename_i e he
      exact ha
    · rename_i touched u hu
      split at hu
      · cases hu
      · cases hu
        have hj := ha.joinAll hid
          ((t.addInterface ⟨link.index⟩ link.name).groupsSharingName m.group)
        have := hrest ((t.addInterface ⟨link.index⟩ link.name).groupsSharingName m.group) _ hj
        split <;> exact this

theorem Intact.resolveAll (h : Intact t) (ps : List (Matcher × Link)) : Intact (t.resolveAll ps) :=
  List.foldlRecOn ps _ h fun _ hu p _ => hu.resolve p.1 p.2

theorem Intact.linkUp (h : Intact t) (link : Link) : Intact (t.linkUp link).2 := by
  by_cases hu : link.up = true
  · rw [linkUp_snd t link hu]
    exact h.resolveAll _
  · unfold Topology.linkUp
    simpa [hu] using h

/-! ## Runs -/

theorem Intact.orSame {α : Type} (h : Intact t) {r : Except TopologyError (α × Topology)}
    (hr : ∀ p, r = .ok p → Intact p.2) : Intact (t.orSame (r.map (·.2))) := by
  cases r with
  | error e => exact h
  | ok p => exact hr p rfl

theorem Intact.next (h : Intact t) (e : Event) : Intact (t.next e) := by
  cases e with
  | addInterface id name => exact h.addInterface id name
  | removeInterface id => exact h.removeInterface id
  | addAddress id address =>
    refine h.dress fun i => ?_
    unfold Interface.addAddress
    split <;> exact ⟨rfl, rfl, rfl⟩
  | setNetworkAddress id address => exact h.dress fun _ => ⟨rfl, rfl, rfl⟩
  | modifyFlags id change => exact h.dress fun _ => ⟨rfl, rfl, rfl⟩
  | setBinding id binding => exact h.dress fun _ => ⟨rfl, rfl, rfl⟩
  | addGroup name mode relay => exact h.addGroup name mode relay
  | setGroupPolicy gid policy tunnel resequence =>
    exact h.modifyGroup fun k hk =>
      ⟨rfl, rfl, (h.peopled k (h.group?_eq.1 hk).1).unsourced rfl (.inr rfl)⟩
  | removeGroup gid => exact h.orSame fun _ hr => h.removeGroup hr
  | addMember gid id role =>
    change Intact (t.orSame (t.addMember gid id role))
    cases hr : t.addMember gid id role with
    | error e => exact h
    | ok u => exact h.addMember hr
  | removeMember gid id => exact h.orSame fun _ hr => h.removeMember hr
  | associate gid => exact h.associate gid
  | addMatcher gid stem role => exact h.orSame fun _ hr => h.addMatcher hr
  | matchLinks m links =>
    change Intact (t.matchLinks m links).2
    rw [matchLinks_snd]
    exact h.resolveAll _
  | linkUp link => exact h.linkUp link

theorem Reachable.intact (h : Reachable t) : Intact t := by
  induction h with
  | empty => exact empty_intact
  | next e _ ih => exact ih.next e

/-! ## References -/

/-- What each table may rely on in the others. -/
structure Referential (t : Topology) : Prop where
  /-- An edge is owned by a group and leads to another interface, and both exist. -/
  edges : ∀ i ∈ t.interfaces, ∀ a ∈ i.associates,
    (∃ g, t.group? a.owner = some g) ∧ (∃ j, t.interface? a.target = some j) ∧ a.target ≠ i.id
  single : ∀ i ∈ t.interfaces, i.targets.Nodup
  members : ∀ g ∈ t.groups, ∀ m ∈ g.members, ∃ i, t.interface? m = some i
  sources : ∀ g ∈ t.groups, ∀ s, g.source = some s → (∃ i, t.interface? s = some i) ∧ s ∈ g.members
  /-- A group is found under its handle and under its name. -/
  found : ∀ g ∈ t.groups, t.group? g.id = some g ∧ t.groupNamed? g.name = some g
  naming : ∀ g ∈ t.groups, ∀ k ∈ t.groups, g.id = k.id ↔ g.name = k.name
  /-- A name leads to a handle exactly where a group of that handle bears the name, so none is left
  behind by a group that went. -/
  listed : ∀ name gid, t.handleOf? name = some gid ↔ ∃ g, t.group? gid = some g ∧ g.name = name
  /-- Neither table has two entries for one key, nor do two names lead to one handle. -/
  keys : (t.groups.map Group.id).Nodup ∧ (t.groupNames.map Prod.fst).Nodup ∧
    (t.groupNames.map Prod.snd).Nodup
  indexed : ∀ i ∈ t.interfaces, t.interface? i.id = some i
  /-- A name that finds an interface is its name. -/
  named : ∀ name i, t.interfaceNamed? name = some i → t.interface? i.id = some i ∧ i.name = name

/-- Whatever was asked of a topology, nothing in it points into the void. Handles are never reused:
they are numbers without a bound. -/
theorem reachable_referential (h : Reachable t) : Referential t := by
  have hi := h.intact
  refine ⟨fun i him a ha => ?_, fun i him => (hi.moored i him).single, fun g hg m hm => ?_,
    fun g hg s hs => ?_, fun g hg => ?_, fun g hg k hk => ?_, fun name gid => ?_,
    ⟨hi.handles, hi.names_nodup, hi.named_handles_nodup⟩, fun i him => ?_, fun name i hn => ?_⟩
  · have hm := hi.moored i him
    exact ⟨hasGroup_iff.1 (hm.owner a ha), has_iff.1 (hm.target a ha).2, (hm.target a ha).1⟩
  · exact has_iff.1 ((hi.peopled g hg).present m hm)
  · have hm := (hi.peopled g hg).sourced s hs
    exact ⟨has_iff.1 ((hi.peopled g hg).present s hm), hm⟩
  · exact ⟨hi.group?_eq.2 ⟨hg, rfl⟩, hi.groupNamed?_eq.2 ⟨hg, rfl⟩⟩
  · constructor
    · intro he
      rw [hi.group_eq hg hk he]
    · intro he
      rw [hi.named_eq hg hk he]
  · simp only [hi.handleOf?_eq, hi.group?_eq, and_assoc]
  · exact hi.interface?_eq.2 ⟨him, rfl⟩
  · obtain ⟨id, hid, hfound⟩ := Option.bind_eq_some_iff.1 hn
    obtain ⟨j, hj, hjd, hjn⟩ := hi.borne name id hid
    have hji := hi.interface?_eq.2 ⟨hj, hjd⟩
    rw [hfound] at hji
    cases hji
    exact ⟨hi.interface?_eq.2 ⟨hj, rfl⟩, hjn⟩

/-- Two dial-in links come up and the first goes down again. -/
def redial : List Event :=
  [.addInterface ⟨1⟩ "wlan0", .addGroup "ppp" .push .classicalFlooding,
    .addMember ⟨1⟩ ⟨1⟩ .destination, .addMatcher ⟨1⟩ "ppp" .source, .linkUp ⟨"ppp0", 10, true⟩,
    .linkUp ⟨"ppp1", 11, true⟩, .removeInterface ⟨10⟩]

/-- The second instance keeps its edge and its name, and nothing refers to the link that went. -/
theorem redial_referential :
    (redial.foldl next empty).associateCount = 1 ∧ (redial.foldl next empty).groups.length = 2 ∧
      (redial.foldl next empty).groupNames = [("ppp", ⟨1⟩), ("ppp:ppp1", ⟨3⟩)] ∧
      Referential (redial.foldl next empty) :=
  ⟨by decide +kernel, by decide +kernel, by decide +kernel,
    reachable_referential (reachable_foldl .empty redial)⟩

end Topology
end MulticastRelay
