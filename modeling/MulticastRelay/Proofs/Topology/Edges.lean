import MulticastRelay.Proofs.Topology.Sound
import MulticastRelay.Topology.Wildcard

/-! # Edges that groups call for

Between operations an edge is there when some group calls for it, and only then. A group that
changed is pending until its association pass, which makes what the group calls for and nothing
else.
-/
namespace MulticastRelay

namespace InterfaceId

theorem before_total (a b : InterfaceId) : a.before b = true ∨ b.before a = true ∨ a = b := by
  rcases Nat.lt_trichotomy a.index b.index with hlt | heq | hgt
  · exact .inl (decide_eq_true hlt)
  · exact .inr (.inr (congrArg InterfaceId.mk heq))
  · exact .inr (.inl (decide_eq_true hgt))

end InterfaceId

namespace Group

variable {g k : Group} {a b id : InterfaceId}

theorem mem_insertMember : a ∈ (g.insertMember id).members ↔ a = id ∨ a ∈ g.members :=
  Ascending.mem_insert_iff InterfaceId.before_total

/-- Of whom a group relays: of its source in push mode, and of every member in a mesh. -/
def Sends (g : Group) (a : InterfaceId) : Prop :=
  if g.mode = .push then g.isTemplate = false ∧ g.source = some a else a ∈ g.members

theorem mem_edges : (a, b) ∈ g.edges ↔ g.Sends a ∧ b ∈ g.members ∧ b ≠ a := by
  unfold edges Sends
  cases hm : g.mode with
  | push =>
    cases ht : g.isTemplate with
    | true => simp
    | false =>
      cases hs : g.source with
      | none => simp
      | some s =>
        simp only [destinations, hs, List.mem_map, List.mem_filter, decide_eq_true_eq, ne_eq,
          Option.some.injEq, Prod.mk.injEq, Bool.false_eq_true, if_true, if_false, true_and]
        constructor
        · rintro ⟨m, hm, rfl, rfl⟩
          exact ⟨rfl, hm⟩
        · rintro ⟨rfl, hb⟩
          exact ⟨b, hb, rfl, rfl⟩
  | merge => simp
  | relay => simp

theorem edges_of_no_source (hm : g.mode = .push) (hs : g.source = none) : g.edges = [] := by
  unfold edges
  rw [hm, hs]
  by_cases ht : g.isTemplate = true <;> simp [ht]

theorem mem_edges_of_members (hm : k.mode = g.mode) (ht : k.isTemplate = g.isTemplate)
    (hs : k.source = g.source) (hi : ∀ x ∈ g.members, x ∈ k.members) {e : Edge} (he : e ∈ g.edges) :
    e ∈ k.edges := by
  obtain ⟨a, b⟩ := e
  obtain ⟨ha, hb, hne⟩ := mem_edges.1 he
  refine mem_edges.2 ⟨?_, hi b hb, hne⟩
  unfold Sends at ha ⊢
  rw [hm, ht, hs]
  by_cases hp : g.mode = .push
  · rw [if_pos hp] at ha ⊢
    exact ha
  · rw [if_neg hp] at ha ⊢
    exact hi a ha

end Group

namespace Interface

theorem mem_connect {i : Interface} {owner : GroupId} {b c : InterfaceId} :
    b ∈ (i.connect owner c).2.targets ↔ b ∈ i.targets ∨ b = c := by
  unfold connect
  cases ha : i.associate? c with
  | some s =>
    have hc : c ∈ i.targets := by
      obtain ⟨hm, ht⟩ : s ∈ i.associates ∧ s.target = c := Keyed.get?_mem ha
      exact ht ▸ List.mem_map_of_mem hm
    constructor
    · exact .inl
    · rintro (hb | rfl)
      · exact hb
      · exact hc
  | none => simp [targets]

theorem connect_id (i : Interface) (owner : GroupId) (c : InterfaceId) :
    (i.connect owner c).2.id = i.id ∧ (i.connect owner c).2.name = i.name := by
  unfold connect
  cases i.associate? c <;> exact ⟨rfl, rfl⟩

end Interface

namespace Topology

variable {t u : Topology} {a b : InterfaceId} {gid : GroupId}

/-! ## Making edges -/

def Spans (t : Topology) (e : Edge) : Prop :=
  (∃ x, t.nameOf? e.1 = some x) ∧ ∃ y, t.nameOf? e.2 = some y

theorem Sound.spans (h : Sound t) {g : Group} (hg : g ∈ t.groups) {e : Edge} (he : e ∈ g.edges) :
    t.Spans e := by
  obtain ⟨a, b⟩ := e
  obtain ⟨ha, hb, -⟩ := Group.mem_edges.1 he
  refine ⟨?_, h.present g hg b hb⟩
  unfold Group.Sends at ha
  by_cases hp : g.mode = .push
  · rw [if_pos hp] at ha
    exact h.present g hg a (h.sourced g hg a ha.2)
  · rw [if_neg hp] at ha
    exact h.present g hg a ha

theorem connect_spec (owner : GroupId) {e : Edge} (he : t.Spans e) (tally : AssociationTally) :
    Recast t (t.connect owner e tally).1 ∧
      ∀ a b, (t.connect owner e tally).1.Linked a b ↔ t.Linked a b ∨ (a, b) = e := by
  obtain ⟨p, q⟩ := e
  obtain ⟨⟨x, hx⟩, ⟨y, hy⟩⟩ := he
  obtain ⟨i, hi, -⟩ := Option.map_eq_some_iff.1 hx
  obtain ⟨j, hj, -⟩ := Option.map_eq_some_iff.1 hy
  obtain ⟨hid, hname⟩ := i.connect_id owner q
  have hip : (i.connect owner q).2.id = p := hid.trans (Keyed.get?_mem hi).2
  have hc : (t.connect owner (p, q) tally).1 =
      t.modifyInterface p fun _ => (i.connect owner q).2 := by
    unfold connect
    rw [hi, hj]
  rw [hc]
  constructor
  · refine modifyInterface_recast (fun k hk => ?_) fun _ _ => hip
    rw [hi] at hk
    cases hk
    exact hname
  · intro a b
    rw [linked_modifyInterface fun _ _ => hip]
    by_cases ha : a = p
    · subst ha
      simp [Linked, hi, Interface.mem_connect]
    · simp [ha]

theorem connectAll_spec (owner : GroupId) (edges : List Edge) :
    ∀ (t : Topology) (tally : AssociationTally), (∀ e ∈ edges, t.Spans e) →
      Recast t (edges.foldl (fun (t, tally) e => t.connect owner e tally) (t, tally)).1 ∧
        ∀ a b, (edges.foldl (fun (t, tally) e => t.connect owner e tally) (t, tally)).1.Linked a b ↔
          t.Linked a b ∨ (a, b) ∈ edges := by
  induction edges with
  | nil =>
    intro t tally _
    exact ⟨.refl t, fun a b => by simp⟩
  | cons e edges ih =>
    intro t tally hs
    obtain ⟨hr, hl⟩ := connect_spec owner (hs e List.mem_cons_self) tally
    have hspan : ∀ d ∈ edges, (t.connect owner e tally).1.Spans d := by
      intro d hd
      have := hs d (List.mem_cons_of_mem _ hd)
      unfold Spans at this ⊢
      rw [hr.naming, hr.naming]
      exact this
    obtain ⟨hr', hl'⟩ := ih (t.connect owner e tally).1 (t.connect owner e tally).2 hspan
    rw [List.foldl_cons]
    refine ⟨hr.trans hr', fun a b => ?_⟩
    rw [hl' a b, hl a b, List.mem_cons, or_assoc]

theorem updateCapture_spec (ids : List InterfaceId) :
    ∀ t : Topology, Recast t (t.updateCapture ids) ∧
      ∀ a b, (t.updateCapture ids).Linked a b ↔ t.Linked a b := by
  induction ids with
  | nil => exact fun t => ⟨.refl t, fun _ _ => .rfl⟩
  | cons id ids ih =>
    intro t
    have hid : ∀ i : Interface, i.id = id → i.updateCapture.id = id := fun _ h => h
    have hr : Recast t (t.modifyInterface id Interface.updateCapture) :=
      modifyInterface_recast (fun _ _ => rfl) hid
    obtain ⟨hr', hl'⟩ := ih (t.modifyInterface id Interface.updateCapture)
    refine ⟨hr.trans hr', fun a b => (hl' a b).trans ?_⟩
    rw [linked_modifyInterface hid]
    by_cases ha : a = id
    · subst ha
      simp [Linked, Interface.updateCapture, Interface.targets]
    · simp [ha]

/-- A pass makes exactly the edges that its group calls for. -/
theorem associate_spec (h : Sound t) (gid : GroupId) :
    Recast t (t.associate gid).2 ∧
      ∀ a b, (t.associate gid).2.Linked a b ↔
        t.Linked a b ∨ ∃ g ∈ t.groups, g.id = gid ∧ (a, b) ∈ g.edges := by
  unfold associate
  cases hg : t.group? gid with
  | none =>
    refine ⟨.refl t, fun a b => ⟨.inl, ?_⟩⟩
    rintro (hl | ⟨g, hm, rfl, -⟩)
    · exact hl
    · exact absurd (List.mem_map_of_mem hm) (Keyed.get?_eq_none_iff.1 hg)
  | some g =>
    obtain ⟨hm, hid⟩ := h.group?_eq.1 hg
    obtain ⟨hr, hl⟩ := connectAll_spec gid g.edges t {} fun _ he => h.spans hm he
    obtain ⟨hr', hl'⟩ := updateCapture_spec g.members (t.connectAll gid g.edges).1
    refine ⟨hr.trans hr', fun a b => (hl' a b).trans ((hl a b).trans (or_congr_right ⟨?_, ?_⟩))⟩
    · exact fun he => ⟨g, hm, hid, he⟩
    · rintro ⟨k, hk, hkid, he⟩
      have := h.group?_eq.2 ⟨hk, hkid⟩
      rw [hg] at this
      cases this
      exact he

/-! ## Pending groups -/

/-- Every edge is called for, and every edge called for is there, except for groups that are
pending. -/
structure Wired (t : Topology) (pending : List GroupId) : Prop where
  called : ∀ a b, t.Linked a b → ∃ g ∈ t.groups, (a, b) ∈ g.edges
  made : ∀ g ∈ t.groups, g.id ∉ pending → ∀ a b, (a, b) ∈ g.edges → t.Linked a b

variable {p q : List GroupId}

theorem empty_wired : Wired empty [] where
  called _ _ h := by
    obtain ⟨i, hi, -⟩ := h
    cases hi
  made _ h := absurd h List.not_mem_nil

theorem Wired.of_extends (h : Wired t p) (he : Extends t u)
    (hl : ∀ a b, u.Linked a b ↔ t.Linked a b) :
    Wired u p where
  called a b hab := he.groups.symm ▸ h.called a b ((hl a b).1 hab)
  made g hg hp a b hab := (hl a b).2 (h.made g (he.groups ▸ hg) hp a b hab)

theorem Wired.associate (h : Sound t) (hw : Wired t (gid :: p)) : Wired (t.associate gid).2 p := by
  obtain ⟨hr, hl⟩ := associate_spec h gid
  constructor
  · intro a b hab
    rw [hr.groups]
    rcases (hl a b).1 hab with hab | ⟨g, hg, -, he⟩
    · exact hw.called a b hab
    · exact ⟨g, hg, he⟩
  · intro g hg hp a b he
    rw [hr.groups] at hg
    rw [hl a b]
    by_cases hid : g.id = gid
    · exact .inr ⟨g, hg, hid, he⟩
    · exact .inl (hw.made g hg (by simp [hid, hp]) a b he)

theorem associateAll_snd (t : Topology) (gids : List GroupId) :
    (t.associateAll gids).2 = gids.foldl (fun t gid => (t.associate gid).2) t := by
  unfold associateAll
  refine (List.foldl_hom Prod.snd fun s gid => ?_).symm
  dsimp only
  split <;> rfl

theorem associateAll_spec {groups : List GroupId} (h : Sound t) (hw : Wired t groups) :
    Recast t (t.associateAll groups).2 ∧ Wired (t.associateAll groups).2 [] := by
  rw [associateAll_snd]
  induction groups generalizing t with
  | nil => exact ⟨.refl t, hw⟩
  | cons gid groups ih =>
    have hr := (associate_spec h gid).1
    obtain ⟨hr', hw'⟩ := ih (hr.sound h) (hw.associate h)
    exact ⟨hr.trans hr', hw'⟩

theorem regroup_wired {φ : Group → Group} (hw : Wired t []) (hid : ∀ g ∈ t.groups, (φ g).id = g.id)
    (hmore : ∀ g ∈ t.groups, ∀ e ∈ g.edges, e ∈ (φ g).edges)
    (hsame : ∀ g ∈ t.groups, g.id ∉ q → ∀ e ∈ (φ g).edges, e ∈ g.edges) :
    Wired (t.regroup φ) q where
  called a b hab := by
    obtain ⟨g, hg, he⟩ := hw.called a b hab
    exact ⟨φ g, List.mem_map_of_mem hg, hmore g hg (a, b) he⟩
  made k hk hq a b he := by
    obtain ⟨g, hg, rfl⟩ := List.mem_map.1 hk
    rw [hid g hg] at hq
    exact hw.made g hg List.not_mem_nil a b (hsame g hg hq (a, b) he)

theorem insertGroup_wired {g : Group} (hw : Wired t []) (hn : ∀ k ∈ t.groups, k.id ≠ g.id)
    (hq : g.id ∉ q → g.edges = []) : Wired (t.insertGroup g) q := by
  constructor
  · intro a b hab
    obtain ⟨k, hk, he⟩ := hw.called a b hab
    exact ⟨k, (mem_insertGroup hn).2 (.inr hk), he⟩
  · intro k hk hkq a b he
    rcases (mem_insertGroup hn).1 hk with rfl | hk
    · rw [hq hkq] at he
      exact absurd he List.not_mem_nil
    · exact hw.made k hk List.not_mem_nil a b he

end Topology
end MulticastRelay
