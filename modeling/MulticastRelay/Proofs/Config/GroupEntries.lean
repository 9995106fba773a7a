import MulticastRelay.Proofs.Config.Saved
import MulticastRelay.Proofs.Topology.Naming

/-! # Group entries

The entry of a group is read off its members, its source and its matchers. A new group comes last, as
it has the latest handle; from there its entry grows by one source and one member after another, and
the entries of other groups stay as they are.
-/
namespace MulticastRelay

/-- An element after all that a test picks out comes last among them. -/
theorem Ascending.filter_insert_members {p : InterfaceId → Bool} {x : InterfaceId}
    {xs : List InterfaceId} (h : xs.Pairwise fun a b => a.before b = true) (hp : p x = true)
    (hx : ∀ y ∈ xs, p y = true → y.before x = true) :
    (insert InterfaceId.before x xs).filter p = xs.filter p ++ [x] := by
  induction xs with
  | nil => simp [insert, hp]
  | cons y ys ih =>
    obtain ⟨hy, hys⟩ := List.pairwise_cons.1 h
    have hrest := ih hys fun z hz => hx z (List.mem_cons_of_mem _ hz)
    have hasymm : ∀ {a b : InterfaceId}, a.before b = true → ¬b.before a = true := by
      intro a b hab hba
      have hab := of_decide_eq_true hab
      have hba := of_decide_eq_true hba
      omega
    unfold insert
    by_cases hxy : x.before y = true
    · have hnone : (y :: ys).filter p = [] := by
        refine List.filter_eq_nil_iff.2 fun z hz hpz => hasymm (hx z hz hpz) ?_
        rcases List.mem_cons.1 hz with rfl | hz
        · exact hxy
        · exact decide_eq_true ((of_decide_eq_true hxy).trans (of_decide_eq_true (hy z hz)))
      rw [if_pos hxy, List.filter_cons_of_pos hp, hnone]
      rfl
    · rw [if_neg hxy]
      by_cases hyx : y.before x = true
      · rw [if_pos hyx, List.filter_cons, hrest, List.filter_cons]
        split <;> rfl
      · have he : y = x := by
          have hxy : ¬x.index < y.index := fun hlt => hxy (decide_eq_true hlt)
          have hyx : ¬y.index < x.index := fun hlt => hyx (decide_eq_true hlt)
          exact congrArg InterfaceId.mk (by omega)
        exact absurd (hx y List.mem_cons_self (he ▸ hp)) hyx

namespace Config

open MulticastRelay.Topology

variable {t u : Topology} {gs : List GroupEntry} {d : GroupEntry} {g k : Group} {m : Matcher}
  {name stem : String} {x : InterfaceId} {role : Role}

/-- The groups that a capture shows, in the order of their handles. -/
def savedGroups (t : Topology) : List Group :=
  (t.groups.filter (·.derivedFrom.isNone)).mergeSort fun a b => a.id.number ≤ b.id.number

theorem mergeSort_handles (ks : List Group) :
    (ks.mergeSort fun a b => a.id.number ≤ b.id.number).Pairwise fun a b => a.id.number ≤ b.id.number := by
  have hsorted : (ks.mergeSort fun a b => a.id.number ≤ b.id.number).Pairwise
      fun a b => decide (a.id.number ≤ b.id.number) = true :=
    List.pairwise_mergeSort
      (fun a b c hab hbc => decide_eq_true ((of_decide_eq_true hab).trans (of_decide_eq_true hbc)))
      (fun a b => by simpa using Nat.le_total a.id.number b.id.number) _
  exact hsorted.imp of_decide_eq_true

/-- Whether they were gone through by name or not, the groups come in the order of their handles. -/
theorem capture_groups {n : Node} (h : Catalogued n.topology) :
    (Configuration.capture n).groups = (savedGroups n.topology).map (captureGroup n.topology) := by
  have hp : ((n.topology.groupsByName.filter (·.derivedFrom.isNone)).mergeSort
      fun a b => a.id.number ≤ b.id.number).Perm (savedGroups n.topology) :=
    (List.mergeSort_perm _ _).trans
      ((h.groupsByName_perm.filter _).trans (List.mergeSort_perm _ _).symm)
  have hmem : ∀ g ∈ savedGroups n.topology, g ∈ n.topology.groups := fun g hg =>
    (List.mem_filter.1 ((List.mergeSort_perm _ _).mem_iff.1 hg)).1
  refine congrArg (List.map (captureGroup n.topology)) ?_
  refine List.Perm.eq_of_pairwise (fun a b ha hb hab hba => ?_) (mergeSort_handles _)
    (mergeSort_handles _) hp
  exact h.group_eq (hmem a (hp.mem_iff.1 ha)) (hmem b hb)
    (congrArg GroupId.mk (Nat.le_antisymm hab hba))

/-- The matchers of a group. -/
def rulesOf (t : Topology) (name : String) : List Matcher :=
  t.matchers.toList.filter (·.group = name)

theorem captureGroup_eq (t : Topology) (g : Group) : captureGroup t g =
    { name := g.name
      mode := g.mode.token
      relay := g.relayType.token
      source := wildcardSource? g (rulesOf t g.name) <|> g.source >>= t.nameOf?
      members := (g.members.filter fun m => some m ≠ g.source).filterMap t.nameOf? ++
        wildcardMembers g (rulesOf t g.name)
      elastic := g.policy.elastic
      unicast := g.policy.unicast
      pathMetric := g.policy.pathMetric
      resequence := g.resequence
      tunnel := g.tunnel } := rfl

theorem captureGroup_congr (hn : ∀ x, u.nameOf? x = t.nameOf? x)
    (hr : rulesOf u g.name = rulesOf t g.name) : captureGroup u g = captureGroup t g := by
  rw [captureGroup_eq, captureGroup_eq, hr, funext hn]

/-- The groups that a capture shows are these entries, and no matcher belongs to any other group. -/
structure Lists (gs : List GroupEntry) (t : Topology) : Prop where
  ranked : t.matchers.Ranked
  claimed : ∀ m ∈ t.matchers.toList, ∃ g ∈ t.groups, g.name = m.group
  plain : ∀ g ∈ t.groups, g.derivedFrom = none
  entries : (savedGroups t).map (captureGroup t) = gs

namespace Lists

theorem empty (hg : t.groups = []) (hm : t.matchers = .empty) : Lists [] t where
  ranked := by
    rw [hm]
    exact List.Pairwise.nil
  claimed m hin := by
    rw [hm] at hin
    exact absurd hin List.not_mem_nil
  plain g hin := by
    rw [hg] at hin
    exact absurd hin List.not_mem_nil
  entries := by
    unfold savedGroups
    simp [hg]

theorem frame (h : Lists gs t) (hg : u.groups = t.groups) (hm : u.matchers = t.matchers)
    (hn : ∀ x, u.nameOf? x = t.nameOf? x) : Lists gs u where
  ranked := hm ▸ h.ranked
  claimed m hin := hg ▸ h.claimed m (hm ▸ hin)
  plain g hin := h.plain g (hg ▸ hin)
  entries := by
    have hs : savedGroups u = savedGroups t := by
      unfold savedGroups
      rw [hg]
    rw [hs, ← h.entries]
    refine List.map_congr_left fun g _ => captureGroup_congr hn ?_
    unfold rulesOf
    rw [hm]

theorem savedGroups_perm (h : Lists gs t) : (savedGroups t).Perm t.groups := by
  have hall : t.groups.filter (·.derivedFrom.isNone) = t.groups :=
    List.filter_eq_self.2 fun g hg => by rw [h.plain g hg]; rfl
  unfold savedGroups
  rw [hall]
  exact List.mergeSort_perm _ _

theorem names (h : Lists gs t) : gs.map (·.name) = (savedGroups t).map Group.name := by
  rw [← h.entries, List.map_map]
  rfl

theorem mem_names (h : Lists gs t) : name ∈ gs.map (·.name) ↔ ∃ g ∈ t.groups, g.name = name := by
  rw [h.names, List.mem_map]
  simp only [h.savedGroups_perm.mem_iff]

/-- The group of the last entry comes last. -/
theorem split (h : Lists (gs ++ [d]) t) (hi : t.Intact) (hg : g ∈ t.groups) (hn : g.name = d.name) :
    ∃ ks, savedGroups t = ks ++ [g] ∧ ks.map (captureGroup t) = gs ∧
      ∀ k ∈ ks, k.id ≠ g.id ∧ k.name ≠ g.name := by
  obtain ⟨ks, ls, hs, hks, hls⟩ := List.map_eq_append_iff.1 h.entries
  obtain ⟨l, rfl, hl⟩ : ∃ l, ls = [l] ∧ captureGroup t l = d := by
    obtain ⟨l, rest, rfl, hl, hrest⟩ := List.map_eq_cons_iff.1 hls
    rw [List.map_eq_nil_iff.1 hrest]
    exact ⟨l, rfl, hl⟩
  have hmem : ∀ k ∈ ks ++ [l], k ∈ t.groups := fun k hk => h.savedGroups_perm.mem_iff.1 (hs ▸ hk)
  have hlg : l = g :=
    List.inj_on_of_nodup_map hi.group_names (hmem l (by simp)) hg
      ((congrArg GroupEntry.name hl).trans hn.symm)
  subst hlg
  have hnodup : ∀ {α : Type} (f : Group → α), (t.groups.map f).Nodup → ∀ k ∈ ks, f k ≠ f l := by
    intro α f hf k hk he
    have hf := (h.savedGroups_perm.map f).nodup_iff.2 hf
    rw [hs, List.map_append] at hf
    exact List.disjoint_of_nodup_append hf (List.mem_map_of_mem hk) (by simp [he])
  exact ⟨ks, hs, hks, fun k hk => ⟨hnodup Group.id hi.handles k hk,
    hnodup Group.name hi.group_names k hk⟩⟩

end Lists

/-- The group `g` comes last, with the entry `d` so far. -/
structure Drafts (gs : List GroupEntry) (d : GroupEntry) (g : Group) (t : Topology) : Prop where
  lists : Lists (gs ++ [d]) t
  mem : g ∈ t.groups
  entry : captureGroup t g = d
  /-- A source of its own is the source of the entry. -/
  sourced : ∀ x, g.source = some x → d.source = t.nameOf? x

namespace Drafts

theorem name_eq (h : Drafts gs d g t) : g.name = d.name := congrArg GroupEntry.name h.entry

theorem frame (h : Drafts gs d g t) (hg : u.groups = t.groups) (hm : u.matchers = t.matchers)
    (hn : ∀ x, u.nameOf? x = t.nameOf? x) : Drafts gs d g u where
  lists := h.lists.frame hg hm hn
  mem := hg ▸ h.mem
  entry := by
    rw [← h.entry]
    refine captureGroup_congr hn ?_
    unfold rulesOf
    rw [hm]
  sourced x hx := (h.sourced x hx).trans (hn x).symm

/-- The last group and the matchers change, those of other groups excepted. -/
theorem revise {d' : GroupEntry} {φ : Group → Group} (h : Drafts gs d g t) (hi : t.Intact)
    (hg : u.groups = (t.modifyGroup g.id φ).groups)
    (hφ : (φ g).id = g.id ∧ (φ g).name = g.name ∧ (φ g).derivedFrom = g.derivedFrom)
    (hn : ∀ x, u.nameOf? x = t.nameOf? x) (hr : u.matchers.Ranked)
    (hc : ∀ m ∈ u.matchers.toList, m ∈ t.matchers.toList ∨ m.group = g.name)
    (ho : ∀ name, name ≠ g.name → rulesOf u name = rulesOf t name)
    (hd : captureGroup u (φ g) = d')
    (hs : ∀ x, (φ g).source = some x → d'.source = t.nameOf? x) : Drafts gs d' (φ g) u := by
  let ψ : Group → Group := fun k => if k.id = g.id then φ k else k
  have hψ : ∀ k ∈ t.groups, (ψ k).id = k.id ∧ (ψ k).name = k.name ∧
      (ψ k).derivedFrom = k.derivedFrom := by
    intro k hk
    by_cases hid : k.id = g.id
    · obtain rfl := List.inj_on_of_nodup_map hi.handles hk h.mem hid
      have he : ψ k = φ k := if_pos rfl
      exact he.symm ▸ hφ
    · have he : ψ k = k := if_neg hid
      rw [he]
      exact ⟨rfl, rfl, rfl⟩
  have hmap : u.groups = t.groups.map ψ := hg
  have hself : ψ g = φ g := if_pos rfl
  have hmem : φ g ∈ u.groups := hmap ▸ hself ▸ List.mem_map_of_mem h.mem
  have hplain : ∀ k ∈ u.groups, k.derivedFrom = none := by
    intro k hk
    rw [hmap] at hk
    obtain ⟨l, hl, rfl⟩ := List.mem_map.1 hk
    exact (hψ l hl).2.2.trans (h.lists.plain l hl)
  have hsaved : savedGroups u = (savedGroups t).map ψ := by
    have hu : u.groups.filter (·.derivedFrom.isNone) = u.groups :=
      List.filter_eq_self.2 fun k hk => by rw [hplain k hk]; rfl
    have ht : t.groups.filter (·.derivedFrom.isNone) = t.groups :=
      List.filter_eq_self.2 fun k hk => by rw [h.lists.plain k hk]; rfl
    unfold savedGroups
    rw [hu, ht, hmap]
    refine (List.map_mergeSort fun a ha b hb => ?_).symm
    rw [(hψ a ha).1, (hψ b hb).1]
  obtain ⟨ks, hks, hentries, hne⟩ := h.lists.split hi h.mem h.name_eq
  refine ⟨⟨hr, fun m hm => ?_, hplain, ?_⟩, hmem, hd, fun x hx => (hs x hx).trans (hn x).symm⟩
  · rcases hc m hm with hm | hm
    · obtain ⟨k, hk, he⟩ := h.lists.claimed m hm
      exact ⟨ψ k, hmap ▸ List.mem_map_of_mem hk, (hψ k hk).2.1.trans he⟩
    · exact ⟨φ g, hmem, hφ.2.1.trans hm.symm⟩
  · have hlast : (ks.map ψ).map (captureGroup u) = gs := by
      rw [← hentries, List.map_map]
      refine List.map_congr_left fun k hk => ?_
      have hk' : ψ k = k := if_neg (hne k hk).1
      exact (congrArg (captureGroup u) hk').trans (captureGroup_congr hn (ho _ (hne k hk).2))
    rw [hsaved, hks, List.map_append, List.map_append, hlast, List.map_singleton, hself,
      List.map_singleton, hd]

/-- Only the group changes. -/
theorem modifyGroup {d' : GroupEntry} {φ : Group → Group} (h : Drafts gs d g t) (hi : t.Intact)
    (hφ : (φ g).id = g.id ∧ (φ g).name = g.name ∧ (φ g).derivedFrom = g.derivedFrom)
    (hd : captureGroup t (φ g) = d')
    (hs : ∀ x, (φ g).source = some x → d'.source = t.nameOf? x) :
    Drafts gs d' (φ g) (t.modifyGroup g.id φ) :=
  h.revise hi rfl hφ (fun _ => rfl) h.lists.ranked (fun _ hm => .inl hm) (fun _ _ => rfl) hd hs

end Drafts

/-! ## A new group -/

/-- A group of the next handle comes last. -/
theorem Lists.savedGroups_insertGroup (h : Lists gs t) (hi : t.Intact)
    (hid : g.id = ⟨t.lastGroup + 1⟩) (hn : ∀ k ∈ t.groups, k.name ≠ g.name)
    (hplain : ∀ k ∈ (t.insertGroup g).groups, k.derivedFrom = none) :
    savedGroups (t.insertGroup g) = savedGroups t ++ [g] := by
  have hall : (t.insertGroup g).groups.filter (·.derivedFrom.isNone) = (t.insertGroup g).groups :=
    List.filter_eq_self.2 fun k hk => by rw [hplain k hk]; rfl
  have hleft : (savedGroups (t.insertGroup g)).Perm (t.insertGroup g).groups :=
    (List.mergeSort_perm _ _).trans (.of_eq hall)
  have hright : (savedGroups t ++ [g]).Perm (t.insertGroup g).groups :=
    ((h.savedGroups_perm.append_right [g]).trans (List.perm_append_singleton g t.groups)).trans
      (insertGroup_perm (hid ▸ hi.unissued)).symm
  have hlater : ∀ k ∈ savedGroups t, k.id.number ≤ g.id.number := fun k hk => by
    rw [hid]
    exact Nat.le_succ_of_le (hi.issued k (h.savedGroups_perm.mem_iff.1 hk))
  refine List.Perm.eq_of_pairwise (fun a b ha hb hab hba => ?_) (mergeSort_handles _)
    (List.pairwise_append.2 ⟨mergeSort_handles _, List.pairwise_singleton _ _,
      fun a ha b hb => List.mem_singleton.1 hb ▸ hlater a ha⟩) (hleft.trans hright.symm)
  exact (hi.toCatalogued.insertGroup hid hn).group_eq (hleft.mem_iff.1 ha) (hright.mem_iff.1 hb)
    (congrArg GroupId.mk (Nat.le_antisymm hab hba))

/-- A group of a new name comes last, with nothing in its entry but its name, mode and algorithm. -/
theorem Lists.addGroup (h : Lists gs t) (hi : t.Intact) (hn : name ∉ gs.map (·.name)) (mode : Mode)
    (relay : RelayType) : ∃ g, g.mode = mode ∧
      Drafts gs { name, mode := mode.token, relay := relay.token } g
        (t.addGroup name mode relay).2 := by
  have hnames : ∀ k ∈ t.groups, k.name ≠ name := fun k hk he => hn (h.mem_names.2 ⟨k, hk, he⟩)
  let g : Group := { id := ⟨t.lastGroup + 1⟩, name, mode, relayType := relay }
  have hadd : (t.addGroup name mode relay).2 = t.insertGroup g := by
    unfold Topology.addGroup
    rw [hi.groupNamed?_eq_none_iff.2 hnames]
  have hmem : ∀ k, k ∈ (t.insertGroup g).groups ↔ k = g ∨ k ∈ t.groups := fun _ =>
    mem_insertGroup hi.unissued
  have hplain : ∀ k ∈ (t.insertGroup g).groups, k.derivedFrom = none := by
    intro k hk
    rcases (hmem k).1 hk with rfl | hk
    · rfl
    · exact h.plain k hk
  have hrules : rulesOf t name = [] := by
    refine List.filter_eq_nil_iff.2 fun m hm he => ?_
    obtain ⟨k, hk, hkm⟩ := h.claimed m hm
    exact hnames k hk (hkm.trans (of_decide_eq_true he))
  have hentry : captureGroup (t.insertGroup g) g =
      { name, mode := mode.token, relay := relay.token } := by
    have hsame : rulesOf (t.insertGroup g) g.name = [] := hrules
    rw [captureGroup_eq, hsame]
    rfl
  rw [hadd]
  refine ⟨g, rfl, ⟨h.ranked, fun m hm => ?_, hplain, ?_⟩, (hmem g).2 (.inl rfl), hentry,
    fun x hx => by cases hx⟩
  · obtain ⟨k, hk, he⟩ := h.claimed m hm
    exact ⟨k, (hmem k).2 (.inr hk), he⟩
  · have hold : (savedGroups t).map (captureGroup (t.insertGroup g)) = gs := by
      rw [← h.entries]
      exact List.map_congr_left fun k _ => captureGroup_congr (fun _ => rfl) rfl
    rw [h.savedGroups_insertGroup hi rfl hnames hplain, List.map_append, hold, List.map_singleton,
      hentry]

/-! ## Policies and members -/

namespace Drafts

theorem setGroupPolicy (h : Drafts gs d g t) (hi : t.Intact) (policy : GroupPolicy)
    (tunnel resequence : Bool) :
    Drafts gs { d with
        elastic := policy.elastic
        unicast := policy.unicast
        pathMetric := policy.pathMetric
        tunnel := tunnel
        resequence := resequence } { g with policy, tunnel, resequence }
      (t.modifyGroup g.id fun g => { g with policy, tunnel, resequence }) :=
  h.modifyGroup (φ := fun g => { g with policy, tunnel, resequence }) hi ⟨rfl, rfl, rfl⟩
    (by rw [← h.entry]; rfl) h.sourced

theorem source_none (h : Drafts gs d g t) (hi : t.Intact) (hd : d.source = none) :
    g.source = none := by
  cases hs : g.source with
  | none => rfl
  | some x =>
    have hp := hi.peopled g h.mem
    obtain ⟨y, hy⟩ := has_iff_nameOf?.1 (hp.present x (hp.sourced x hs))
    have hx := h.sourced x hs
    rw [hd, hy] at hx
    cases hx

theorem members_eq (h : Drafts gs d g t) :
    d.members = (g.members.filter fun m => some m ≠ g.source).filterMap t.nameOf? ++
      wildcardMembers g (rulesOf t g.name) :=
  (congrArg GroupEntry.members h.entry).symm

theorem source_eq (h : Drafts gs d g t) :
    d.source = (wildcardSource? g (rulesOf t g.name) <|> g.source >>= t.nameOf?) :=
  (congrArg GroupEntry.source h.entry).symm

/-- An interface after those that are members already joins the group. -/
theorem insertMember (h : Drafts gs d g t) (hi : t.Intact)
    (hx : t.nameOf? x = some name) (hs : d.source ≠ some name)
    (hm : ∀ w ∈ d.members, wildcardStem? w = none ∧
      ∀ y, t.nameOf? y = some w → y.before x = true) :
    Drafts gs { d with members := d.members ++ [name] } (g.insertMember x)
      (t.modifyGroup g.id (·.insertMember x)) := by
  have hp := hi.peopled g h.mem
  have hwild : wildcardMembers g (rulesOf t g.name) = [] := by
    refine List.eq_nil_iff_forall_not_mem.2 fun w hw => ?_
    have hin := (hm w (h.members_eq ▸ List.mem_append_right _ hw)).1
    obtain ⟨r, -, rfl⟩ := List.mem_map.1 hw
    rw [wildcardStem?_wildcardName] at hin
    cases hin
  have hnot : some x ≠ g.source := fun he => hs ((h.sourced x he.symm).trans hx)
  have hlast : ∀ y ∈ g.members, decide (some y ≠ g.source) = true → y.before x = true := by
    intro y hy hyp
    obtain ⟨w, hw⟩ := has_iff_nameOf?.1 (hp.present y hy)
    refine (hm w ?_).2 y hw
    rw [h.members_eq]
    exact List.mem_append_left _ (List.mem_filterMap.2 ⟨y, List.mem_filter.2 ⟨hy, hyp⟩, hw⟩)
  have hfilter := Ascending.filter_insert_members hp.sorted (p := fun m => decide (some m ≠ g.source))
    (x := x) (decide_eq_true hnot) hlast
  have hmembers : ((g.insertMember x).members.filter fun m => some m ≠ g.source).filterMap t.nameOf? ++
      wildcardMembers g (rulesOf t g.name) = d.members ++ [name] := by
    have hnew : (g.insertMember x).members.filter (fun m => some m ≠ g.source) =
        g.members.filter (fun m => some m ≠ g.source) ++ [x] := hfilter
    rw [hnew, List.filterMap_append, h.members_eq, hwild]
    simp [hx]
  refine h.modifyGroup (φ := (·.insertMember x)) hi ⟨rfl, rfl, rfl⟩ ?_ h.sourced
  rw [← hmembers, ← h.entry]
  rfl

/-- An entry without source and members is that of a group without members and matchers. -/
theorem blank (h : Drafts gs d g t) (hi : t.Intact) (hs : d.source = none) (hd : d.members = []) :
    g.members = [] ∧ rulesOf t g.name = [] := by
  have hsource := h.source_none hi hs
  have hmembers := h.members_eq
  rw [hd, hsource] at hmembers
  obtain ⟨hnamed, hwild⟩ := List.append_eq_nil_iff.1 hmembers.symm
  constructor
  · refine List.eq_nil_iff_forall_not_mem.2 fun y hy => ?_
    obtain ⟨w, hw⟩ := has_iff_nameOf?.1 ((hi.peopled g h.mem).present y hy)
    have hin : w ∈ (g.members.filter fun m => some m ≠ none).filterMap t.nameOf? :=
      List.mem_filterMap.2 ⟨y, List.mem_filter.2 ⟨hy, by simp⟩, hw⟩
    exact List.not_mem_nil (hnamed ▸ hin)
  · refine List.eq_nil_iff_forall_not_mem.2 fun r hr => ?_
    by_cases hrole : r.role = .source ∧ g.mode = .push
    · have hnone := h.source_eq
      rw [hs, hsource] at hnone
      have hempty : ¬((rulesOf t g.name).filter fun m => m.role = .source ∧ g.mode = .push) = [] :=
        List.ne_nil_of_mem (List.mem_filter.2 ⟨hr, decide_eq_true hrole⟩)
      have hlast := List.getLast?_isSome.2 hempty
      obtain ⟨l, hl⟩ := Option.isSome_iff_exists.1 hlast
      unfold wildcardSource? at hnone
      rw [hl] at hnone
      cases hnone
    · have hin : wildcardName r.stem ∈ wildcardMembers g (rulesOf t g.name) :=
        List.mem_map.2 ⟨r, List.mem_filter.2 ⟨hr, decide_eq_true hrole⟩, rfl⟩
      exact List.not_mem_nil (hwild ▸ hin)

/-- An interface becomes the source of a blank group. -/
theorem setSource {φ : Group → Group} (h : Drafts gs d g t) (hi : t.Intact) (hs : d.source = none)
    (hd : d.members = []) (hx : t.nameOf? x = some name)
    (hφ : φ g = (g.insertMember x).setSource x) :
    Drafts gs { d with source := some name } (φ g) (t.modifyGroup g.id φ) := by
  obtain ⟨hmembers, hrules⟩ := h.blank hi hs hd
  refine h.modifyGroup hi (by rw [hφ]; exact ⟨rfl, rfl, rfl⟩) ?_ ?_
  · have hnew : captureGroup t ((g.insertMember x).setSource x) =
        { captureGroup t g with source := some name } := by
      rw [captureGroup_eq, captureGroup_eq]
      unfold Group.setSource Group.insertMember
      dsimp only
      rw [hrules, hmembers]
      simp [Ascending.insert, wildcardSource?, wildcardMembers, hx]
    rw [hφ, hnew, h.entry]
  · rw [hφ]
    rintro y hy
    cases hy
    exact hx.symm

/-! ## Wildcards -/

/-- A new matcher of the group is filed, and the group may change besides. -/
theorem insertRule {d' : GroupEntry} {φ : Group → Group} (h : Drafts gs d g t) (hi : t.Intact)
    (hm : m.group = g.name) (hnew : ∀ r ∈ t.matchers.toList, m.sameRule r = false)
    (hφ : (φ g).id = g.id ∧ (φ g).name = g.name ∧ (φ g).derivedFrom = g.derivedFrom)
    (hd : captureGroup { t with matchers := (t.matchers.insert m).2 } (φ g) = d')
    (hs : ∀ x, (φ g).source = some x → d'.source = t.nameOf? x) :
    Drafts gs d' (φ g) { t.modifyGroup g.id φ with matchers := (t.matchers.insert m).2 } := by
  refine h.revise hi rfl hφ (fun _ => rfl) (MatcherTable.ranked _) (fun r hr => ?_)
    (fun k hk => ?_) hd hs
  · rcases (MatcherTable.mem_insert h.lists.ranked hi.filed hnew).1 hr with rfl | hr
    · exact .inr hm
    · exact .inl hr
  · exact MatcherTable.filter_insert_of_not h.lists.ranked hi.filed hnew
      (decide_eq_false fun he => hk (he.symm.trans hm))

/-- A wildcard after those that are members already joins the group. -/
theorem insertWildcard (h : Drafts gs d g t) (hi : t.Intact)
    (hm : ∀ r, wildcardName r ∈ d.members → StemBefore r stem) :
    Drafts gs { d with members := d.members ++ [wildcardName stem] } g
      { t with matchers :=
        (t.matchers.insert ⟨stem, g.name, .destination, g.mode, g.relayType⟩).2 } := by
  let m : Matcher := ⟨stem, g.name, .destination, g.mode, g.relayType⟩
  have hmember : ∀ r ∈ t.matchers.toList, r.group = g.name → ¬(r.role = .source ∧ g.mode = .push) →
      StemBefore r.stem stem := by
    intro r hr hgroup hrole
    refine hm _ (h.members_eq ▸ List.mem_append_right _ (List.mem_map.2 ⟨r, ?_, rfl⟩))
    exact List.mem_filter.2
      ⟨List.mem_filter.2 ⟨hr, decide_eq_true hgroup⟩, decide_eq_true hrole⟩
  have hnew : ∀ r ∈ t.matchers.toList, m.sameRule r = false := by
    intro r hr
    by_contra hsame
    simp only [Matcher.sameRule, Bool.not_eq_false, Bool.and_eq_true, beq_iff_eq] at hsame
    obtain ⟨⟨hstem, hgroup⟩, hrole⟩ := hsame
    refine (hmember r hr hgroup.symm fun hp => ?_).ne hstem.symm
    rw [← hrole] at hp
    cases hp.1
  have hranked := h.lists.ranked
  let u : Topology := { t with matchers := (t.matchers.insert m).2 }
  have hsources : (rulesOf u g.name).filter (fun r => r.role = .source ∧ g.mode = .push) =
      (rulesOf t g.name).filter fun r => r.role = .source ∧ g.mode = .push := by
    unfold rulesOf
    rw [List.filter_filter, List.filter_filter]
    exact MatcherTable.filter_insert_of_not hranked hi.filed hnew (by simp [m])
  have hothers : (rulesOf u g.name).filter (fun r => ¬(r.role = .source ∧ g.mode = .push)) =
      (rulesOf t g.name).filter (fun r => ¬(r.role = .source ∧ g.mode = .push)) ++ [m] := by
    unfold rulesOf
    rw [List.filter_filter, List.filter_filter]
    refine MatcherTable.filter_insert_last hranked hi.filed hnew (by simp [m]) fun r hr hq => ?_
    obtain ⟨hrole, hgroup⟩ := Bool.and_eq_true_iff.1 hq
    exact hmember r hr (of_decide_eq_true hgroup) (of_decide_eq_true hrole)
  have hentry : captureGroup u g = { d with members := d.members ++ [wildcardName stem] } := by
    rw [h.members_eq, ← h.entry, captureGroup_eq, captureGroup_eq]
    unfold wildcardSource? wildcardMembers
    rw [hsources, hothers, List.map_append, ← List.append_assoc]
    rfl
  have hdone := h.insertRule (φ := id) hi (m := m) rfl
    hnew ⟨rfl, rfl, rfl⟩ hentry h.sourced
  have hid : t.modifyGroup g.id id = t := by
    unfold Topology.modifyGroup Keyed.modify
    simp
  rwa [hid] at hdone

/-- A wildcard becomes the source of a blank push group. -/
theorem insertSource (h : Drafts gs d g t) (hi : t.Intact) (hs : d.source = none)
    (hd : d.members = []) (hp : g.mode = .push) :
    Drafts gs { d with source := some (wildcardName stem) } g.makeTemplate
      { t.modifyGroup g.id Group.makeTemplate with matchers :=
        (t.matchers.insert ⟨stem, g.name, .source, g.mode, g.relayType⟩).2 } := by
  let m : Matcher := ⟨stem, g.name, .source, g.mode, g.relayType⟩
  obtain ⟨hmembers, hrules⟩ := h.blank hi hs hd
  have hother : ∀ r ∈ t.matchers.toList, r.group ≠ g.name := fun r hr he => by
    have hin : r ∈ rulesOf t g.name := List.mem_filter.2 ⟨hr, decide_eq_true he⟩
    rw [hrules] at hin
    exact List.not_mem_nil hin
  have hnew : ∀ r ∈ t.matchers.toList, m.sameRule r = false := by
    intro r hr
    have hne : m.group ≠ r.group := (hother r hr).symm
    simp [Matcher.sameRule, hne]
  let u : Topology := { t with matchers := (t.matchers.insert m).2 }
  have hrule : rulesOf u g.name = [m] := by
    have hlast := MatcherTable.filter_insert_last h.lists.ranked hi.filed hnew
      (decide_eq_true (p := m.group = g.name) rfl)
      fun r hr hq => absurd (of_decide_eq_true hq) (hother r hr)
    exact hlast.trans (congrArg (· ++ [m]) hrules)
  have hentry : captureGroup u g.makeTemplate = { d with source := some (wildcardName stem) } := by
    have hsame : captureGroup u g.makeTemplate =
        { captureGroup t g with source := some (wildcardName stem) } := by
      rw [captureGroup_eq, captureGroup_eq]
      unfold Group.makeTemplate
      dsimp only
      rw [hrule, hrules, hmembers]
      simp [m, wildcardSource?, wildcardMembers, hp]
    rw [hsame, h.entry]
  exact h.insertRule (φ := Group.makeTemplate) hi (m := m) rfl hnew ⟨rfl, rfl, rfl⟩ hentry
    fun x hx => by cases hx

end Drafts

end Config
end MulticastRelay
