import MulticastRelay.Proofs.Config.StartUp

/-! # Start-up and hot-plug

The same configuration is applied to a node whose links are up, and to a node whose links come up
only afterwards. Both know the same groups and sources. Their members and edges agree exactly when
no template has a named member that its instances lack at start-up: an instance made while the
template is still being filled copies nothing, and one made later copies all of it.
-/
namespace MulticastRelay

def Link.raised (l : Link) : Link := { l with up := true }

def Link.lowered (l : Link) : Link := { l with up := false }

namespace Node

/-- A new node with the links that its host shows at the start. -/
def start (settings : NodeSettings) (links : List Link) : Node := (Node.new settings).setLinks links

/-- Links that stand in order need no sorting. -/
theorem sortedLinks_eq (n : Node) : n.sortedLinks =
    if n.links.Pairwise (fun a b => a.index ≤ b.index) then n.links
    else n.links.mergeSort fun a b => a.index ≤ b.index := by
  by_cases h : n.links.Pairwise fun a b => a.index ≤ b.index
  · rw [if_pos h]
    exact List.mergeSort_of_pairwise (h.imp decide_eq_true)
  · rw [if_neg h]
    rfl

/-- Links come up one after another. -/
def linksUp (n : Node) (links : List Link) : Node := links.foldl (fun n l => (n.linkUp l).2) n

end Node

namespace Topology

def memberNames (t : Topology) (g : Group) : List String := g.members.filterMap t.nameOf?

def sourceName? (t : Topology) (g : Group) : Option String := g.source.bind t.nameOf?

/-- The same groups with the same members and sources, and the same edges, all by name. -/
structure Agrees (t u : Topology) : Prop where
  groups : ∀ name, (∃ g ∈ t.groups, g.name = name) ↔ ∃ k ∈ u.groups, k.name = name
  members : ∀ g ∈ t.groups, ∀ k ∈ u.groups, g.name = k.name →
    ∀ x, x ∈ t.memberNames g ↔ x ∈ u.memberNames k
  sources : ∀ g ∈ t.groups, ∀ k ∈ u.groups, g.name = k.name → t.sourceName? g = u.sourceName? k
  edges : ∀ x y, t.Joined x y ↔ u.Joined x y

variable {t u : Topology}

theorem mem_memberNames {g : Group} {x : String} : x ∈ t.memberNames g ↔ x ∈ (t.figure g).members :=
  List.mem_filterMap

/-- Topologies that show one picture agree. -/
theorem Settled.agrees (ht : Settled t) (hu : Settled u) (h : t.picture = u.picture) :
    Agrees t u := by
  have hone : ∀ g ∈ t.groups, ∀ k ∈ u.groups, g.name = k.name → t.figure g = u.figure k :=
    fun g hg k hk hn =>
    hu.sound.figure_eq (h ▸ figure_mem hg) (figure_mem hk) hn
  refine ⟨fun name => ⟨?_, ?_⟩, fun g hg k hk hn x => ?_, fun g hg k hk hn => ?_, fun x y => ?_⟩
  · rintro ⟨g, hg, rfl⟩
    obtain ⟨k, hk, he⟩ := (h ▸ figure_mem hg : t.figure g ∈ u.picture)
    exact ⟨k, hk, congrArg Figure.name he⟩
  · rintro ⟨k, hk, rfl⟩
    obtain ⟨g, hg, he⟩ := (h ▸ figure_mem hk : u.figure k ∈ t.picture)
    exact ⟨g, hg, congrArg Figure.name he⟩
  · rw [mem_memberNames, mem_memberNames, hone g hg k hk hn]
  · exact congrArg Figure.source (hone g hg k hk hn)
  · rw [ht.joined_iff, hu.joined_iff, h]

end Topology

namespace Config

open MulticastRelay.Topology Applying

variable {links ls : List Link} {es : List GroupEntry} {seed : GroupEntry → Set String}
  {B : Set Binding} {e : GroupEntry} {n : Node}

/-- Every named member of a template is in each of its instances anyway: it is the source there, or
it is a link that a wildcard member of the template binds. -/
def Complete (links : List Link) (e : GroupEntry) : Prop :=
  ∀ stem, e.source.bind wildcardStem? = some stem → ∀ s ∈ links, isStemOf stem s.name = true →
    ∀ x ∈ e.members, wildcardStem? x = none →
      x = s.name ∨ (∃ l ∈ links, l.name = x) ∧
        ∃ w ∈ e.members, ∃ p, wildcardStem? w = some p ∧ isStemOf p x = true

/-! ## Portraits with different seeds -/

/-- Without instances the seed does not show. -/
theorem portrait_seed {seed' : GroupEntry → Set String}
    (h : ∀ e ∈ es, boundTo B e.name .source = ∅) :
    portrait es seed B = portrait es seed' B := by
  have hle : ∀ {p q : GroupEntry → Set String}, portrait es p B ⊆ portrait es q B := by
    rintro p q F ⟨e, he, hF⟩
    rcases hF with rfl | ⟨s, hs, -⟩
    · exact ⟨e, he, .inl rfl⟩
    · rw [h e he] at hs
      exact absurd hs (Set.notMem_empty s)
  exact Set.Subset.antisymm hle hle

/-- The members of a template reach its instances by bindings alone. -/
def Covers (B : Set Binding) (e : GroupEntry) : Prop :=
  ∀ s ∈ boundTo B e.name .source, e.named ⊆ insert s (boundTo B e.name .destination)

theorem made_eq {s : String} (h : e.named ⊆ insert s (boundTo B e.name .destination)) :
    made e ∅ B s = made e e.named B s := by
  refine Figure.ext rfl rfl rfl rfl ?_
  have hle : insert s (e.named ∪ boundTo B e.name .destination) ⊆
      insert s (boundTo B e.name .destination) := by
    rintro x (rfl | hx | hx)
    · exact .inl rfl
    · exact h hx
    · exact .inr hx
  have hge : insert s (boundTo B e.name .destination) ⊆
      insert s (e.named ∪ boundTo B e.name .destination) :=
    Set.insert_subset_insert Set.subset_union_right
  simp only [made, Set.empty_union]
  exact Set.Subset.antisymm hge hle

theorem portrait_eq (h : ∀ e ∈ es, Covers B e) :
    portrait es (fun _ => ∅) B = portrait es GroupEntry.named B := by
  ext F
  constructor
  · rintro ⟨e, he, rfl | ⟨s, hs, rfl⟩⟩
    · exact ⟨e, he, .inl rfl⟩
    · exact ⟨e, he, .inr ⟨s, hs, made_eq (h e he s hs)⟩⟩
  · rintro ⟨e, he, rfl | ⟨s, hs, rfl⟩⟩
    · exact ⟨e, he, .inl rfl⟩
    · exact ⟨e, he, .inr ⟨s, hs, (made_eq (h e he s hs)).symm⟩⟩

/-- A template is complete when bindings cover its members. -/
theorem covers_iff (ha : Apart es) (he : e ∈ es) :
    Covers (bound es links) e ↔ Complete links e := by
  constructor
  · intro h stem hstem s hs hst x hx hw
    have hsource : s.name ∈ boundTo (bound es links) e.name .source :=
      (mem_boundTo_bound ha he).2 ⟨s, hs, stem, hstem, hst, rfl⟩
    rcases h s.name hsource ⟨.inr hx, hw⟩ with hx | hx
    · exact .inl hx
    · obtain ⟨l, hl, p, ⟨w, hin, hp⟩, hpl, rfl⟩ := (mem_boundTo_bound ha he).1 hx
      exact .inr ⟨⟨l, hl, rfl⟩, w, hin, p, hp, hpl⟩
  · rintro h s hs x ⟨hx, hw⟩
    obtain ⟨l, hl, stem, hstem, hst, rfl⟩ := (mem_boundTo_bound ha he).1 hs
    have hmem : x ∈ e.members := by
      refine hx.resolve_left fun hsrc => ?_
      have hstem : e.source.bind wildcardStem? = some stem := hstem
      rw [hsrc, Option.bind_some, hw] at hstem
      cases hstem
    rcases h stem hstem l hl hst x hmem hw with rfl | ⟨⟨k, hk, rfl⟩, w, hin, p, hp, hpl⟩
    · exact .inl rfl
    · exact .inr ((mem_boundTo_bound ha he).2 ⟨k, hk, p, ⟨w, hin, hp⟩, hpl, rfl⟩)

/-- Where the topologies agree, an instance holds no more with its seed than without. -/
theorem covers_of_agrees {t u : Topology} (ht : t.picture = portrait es (fun _ => ∅) B)
    (hu : u.picture = portrait es GroupEntry.named B) (h : Agrees t u) (he : e ∈ es) :
    Covers B e := by
  intro s hs x hx
  obtain ⟨g, hg, hgf⟩ := (ht ▸ ⟨e, he, .inr ⟨s, hs, rfl⟩⟩ : made e ∅ B s ∈ t.picture)
  obtain ⟨k, hk, hkf⟩ := (hu ▸ ⟨e, he, .inr ⟨s, hs, rfl⟩⟩ : made e e.named B s ∈ u.picture)
  have hname : g.name = k.name := (congrArg Figure.name hgf).trans (congrArg Figure.name hkf).symm
  have hmem := (h.members g hg k hk hname x).2 (mem_memberNames.2 (hkf ▸ .inr (.inl hx)))
  have hx := hgf ▸ mem_memberNames.1 hmem
  exact (Set.empty_union (boundTo B e.name .destination)) ▸ hx

/-! ## The two ways to start -/

theorem Standing.linksUp (h : Standing links es seed B n) (hl : LinkNames links) (ha : Apart es)
    (hs : ∀ e ∈ es, e.source.isSome → Seeds seed e) (hk : ∀ l ∈ ls, Listed links l ∧ l.up = true) :
    Standing links es seed (B ∪ bound es ls) (n.linksUp ls) := by
  induction ls generalizing n B with
  | nil =>
    rw [bound_nil, Set.union_empty]
    exact h
  | cons l ls ih =>
    obtain ⟨hlist, hup⟩ := hk l List.mem_cons_self
    rw [bound_cons, ← Set.union_assoc]
    exact ih (h.linkUp hl ha hs hlist hup) fun k hin => hk k (List.mem_cons_of_mem _ hin)

/-- What a configuration that applies leaves behind. -/
theorem applied_of_apply {c : Configuration} {settings : NodeSettings} {now : Instant}
    (hl : LinkNames links) (ha : Apart c.groups)
    (h : c.apply (Node.start settings links) now = .ok (.ok (), n)) :
    (∀ e ∈ c.groups, e.source.isSome → e.modeRead = .push) ∧ Applied links c.groups n :=
  applyAll_leads hl ha _ () n (applied_start settings hl) h

theorem linkNames_map {f : Link → Link} (hl : LinkNames links)
    (hf : ∀ l, (f l).name = l.name ∧ (f l).index = l.index) : LinkNames (links.map f) where
  names := by
    rw [List.map_map]
    exact (List.map_congr_left fun l _ => (hf l).1).symm ▸ hl.names
  indices := by
    rw [List.map_map]
    exact (List.map_congr_left fun l _ => (hf l).2).symm ▸ hl.indices
  below l hin := by
    obtain ⟨k, hk, rfl⟩ := List.mem_map.1 hin
    rw [(hf k).2]
    exact hl.below k hk

theorem bound_raised {order : List Link} (ho : order.Perm links) :
    bound es (order.map Link.raised) = bound es links := by
  refine bound_congr fun name => ?_
  simp [Link.raised, ho.mem_iff]

section Ways

variable {c : Configuration} {settings : NodeSettings} {now later : Instant} {order : List Link}
  {a b : Node}

/-- With the links up from the start, instances are made from templates that are still empty. -/
theorem startUp_picture (hl : LinkNames links) (hg : Apart c.groups)
    (ha : c.apply (Node.start settings (links.map Link.raised)) now = .ok (.ok (), a)) :
    Settled a.topology ∧
      a.topology.picture = portrait c.groups (fun _ => ∅) (bound c.groups links) := by
  have hraised : LinkNames (links.map Link.raised) := linkNames_map hl fun _ => ⟨rfl, rfl⟩
  obtain ⟨-, h⟩ := applied_of_apply hraised hg ha
  have hup : (links.map Link.raised).filter (·.up) = links.map Link.raised :=
    List.filter_eq_self.2 fun l hin => by
      obtain ⟨k, -, rfl⟩ := List.mem_map.1 hin
      rfl
  have hpicture := h.standing.depicts.picture
  rw [hup, bound_raised (.refl links)] at hpicture
  exact ⟨h.standing.depicts.settled, hpicture⟩

/-- With links that come up later, instances are made from templates that are filled. -/
theorem hotPlug_picture (hl : LinkNames links) (hg : Apart c.groups)
    (hb : c.apply (Node.start settings (links.map Link.lowered)) later = .ok (.ok (), b))
    (ho : order.Perm links) :
    Settled (b.linksUp (order.map Link.raised)).topology ∧
      (b.linksUp (order.map Link.raised)).topology.picture =
        portrait c.groups GroupEntry.named (bound c.groups links) := by
  have hlowered : LinkNames (links.map Link.lowered) := linkNames_map hl fun _ => ⟨rfl, rfl⟩
  obtain ⟨hpush, h⟩ := applied_of_apply hlowered hg hb
  have hdown : (links.map Link.lowered).filter (·.up) = [] :=
    List.filter_eq_nil_iff.2 fun l hin => by
      obtain ⟨k, -, rfl⟩ := List.mem_map.1 hin
      simp [Link.lowered]
  have hs := h.standing
  rw [hdown, bound_nil] at hs
  -- There is no instance until a link comes up, so any seed describes the node.
  have hnone : ∀ e ∈ c.groups, boundTo ∅ e.name .source = ∅ := fun e _ =>
    Set.eq_empty_of_forall_notMem fun x hx => hx
  have hseed : Standing (links.map Link.lowered) c.groups GroupEntry.named ∅ b :=
    { hs with
      depicts := { hs.depicts with picture := hs.depicts.picture.trans (portrait_seed hnone) } }
  have hlast : Standing (links.map Link.lowered) c.groups GroupEntry.named
      (∅ ∪ bound c.groups (order.map Link.raised)) (b.linksUp (order.map Link.raised)) := by
    refine hseed.linksUp hlowered hg (fun e he hs => ⟨hpush e he hs, rfl⟩) fun l hin => ?_
    obtain ⟨k, hk, rfl⟩ := List.mem_map.1 hin
    exact ⟨⟨k.lowered, List.mem_map_of_mem (ho.mem_iff.1 hk), rfl, rfl⟩, rfl⟩
  have hpicture := hlast.depicts.picture
  rw [Set.empty_union, bound_raised ho] at hpicture
  exact ⟨hlast.depicts.settled, hpicture⟩

end Ways

/-- A configuration applied while the links are up, and the same one applied before they come up in
any order, agree exactly when each of its groups is complete. -/
theorem agrees_iff_complete {c : Configuration} {settings : NodeSettings} {now later : Instant}
    {order : List Link} {a b : Node} (hl : LinkNames links) (hg : Apart c.groups)
    (ha : c.apply (Node.start settings (links.map Link.raised)) now = .ok (.ok (), a))
    (hb : c.apply (Node.start settings (links.map Link.lowered)) later = .ok (.ok (), b))
    (ho : order.Perm links) :
    Agrees a.topology (b.linksUp (order.map Link.raised)).topology ↔
      ∀ e ∈ c.groups, Complete links e := by
  obtain ⟨hsa, hpa⟩ := startUp_picture hl hg ha
  obtain ⟨hsb, hpb⟩ := hotPlug_picture hl hg hb ho
  constructor
  · intro h e he
    exact (covers_iff hg he).1 (covers_of_agrees hpa hpb h he)
  · intro h
    have hcovers : ∀ e ∈ c.groups, Covers (bound c.groups links) e :=
      fun e he => (covers_iff hg he).2 (h e he)
    have hpicture := hpa.trans ((portrait_eq hcovers).trans hpb.symm)
    exact hsa.agrees hsb hpicture

/-- A dial-in group: every modem link sends to the wireless one. -/
def dialIn : Configuration :=
  { groups := [{ name := "ppp", mode := "push", source := some "ppp#", members := ["wlan0"] }] }

def dialLinks : List Link := [⟨"wlan0", 1, false⟩, ⟨"ppp0", 10, false⟩]

/-- The outcome is a node, and no error. -/
def succeeds : Except ClockFault (Except ConfigError Unit × Node) → Bool
  | .ok (.ok (), _) => true
  | _ => false

theorem exists_of_succeeds {r : Except ClockFault (Except ConfigError Unit × Node)}
    (h : succeeds r = true) :
    ∃ n, r = .ok (.ok (), n) := by
  match r, h with
  | .ok (.ok (), n), _ => exact ⟨n, rfl⟩

theorem dialIn_applies {links : List Link}
    (h : links = dialLinks.map Link.raised ∨ links = dialLinks.map Link.lowered) :
    ∃ n, dialIn.apply (Node.start {} links) 0 = .ok (.ok (), n) := by
  suffices hok : succeeds (dialIn.apply (Node.start {} links) 0) = true from exists_of_succeeds hok
  -- The sort of the links does not reduce, so the step that scans them is opened first.
  simp only [Configuration.apply, applyAll, dialIn, List.forM_eq_forM, List.forM_cons,
    List.forM_nil, applyGroup, Option.toList_some, pure_bind, applyMember, Node.addMember,
    Node.addWildcardMember, Node.sortedLinks_eq]
  rcases h with rfl | rfl <;> decide +kernel

/-- The link that is up at the start feeds an instance without the wireless member; the one that
comes up later feeds an instance with it. -/
theorem dialIn_disagrees : ∃ a b,
    dialIn.apply (Node.start {} (dialLinks.map Link.raised)) 0 = .ok (.ok (), a) ∧
      dialIn.apply (Node.start {} (dialLinks.map Link.lowered)) 0 = .ok (.ok (), b) ∧
      ¬Agrees a.topology (b.linksUp (dialLinks.map Link.raised)).topology := by
  obtain ⟨a, ha⟩ := dialIn_applies (.inl rfl)
  obtain ⟨b, hb⟩ := dialIn_applies (.inr rfl)
  refine ⟨a, b, ha, hb, fun h => ?_⟩
  have hl : LinkNames dialLinks := ⟨by decide, by decide, by decide⟩
  have hg : Apart dialIn.groups := List.pairwise_singleton _ _
  have hw : wildcardStem? "wlan0" = none := by decide +kernel
  have hc := (agrees_iff_complete hl hg ha hb (.refl _)).1 h _ List.mem_cons_self
  rcases hc "ppp" (by decide +kernel) ⟨"ppp0", 10, false⟩ (by decide) (by decide +kernel) "wlan0"
    (by decide) hw with h | ⟨-, w, hin, p, hp, -⟩
  · exact absurd h (by decide)
  · rw [List.mem_singleton.1 hin, hw] at hp
    cases hp

end Config
end MulticastRelay
