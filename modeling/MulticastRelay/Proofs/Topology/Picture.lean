import MulticastRelay.Proofs.Topology.Edges
import MulticastRelay.Proofs.Topology.Families
import Mathlib.Data.Set.Image

/-! # Pictures of a topology

What a topology shows once indices and handles are left out: each group by its name, with the names
of its source and its members. Edges follow from the picture when no group is pending.
-/
namespace MulticastRelay

/-- A group as it shows by name. -/
@[ext] structure Figure where
  name : String
  mode : Mode
  isTemplate : Bool
  source : Option String
  members : Set String

namespace Figure

def join (x : String) (F : Figure) : Figure := { F with members := insert x F.members }

/-- Takes a member for its source. -/
def aim (s : String) (F : Figure) : Figure :=
  { F with isTemplate := false, source := some s, members := insert s F.members }

def makeTemplate (F : Figure) : Figure := { F with isTemplate := true, source := none }

/-- The group made from a template for a source. -/
def instantiate (s : String) (F : Figure) : Figure :=
  ⟨Topology.instanceName F.name s, .push, false, some s, insert s F.members⟩

def Sends (F : Figure) (x : String) : Prop :=
  if F.mode = .push then F.isTemplate = false ∧ F.source = some x else x ∈ F.members

def Joins (F : Figure) (x y : String) : Prop := F.Sends x ∧ y ∈ F.members ∧ y ≠ x

end Figure

namespace Topology

variable {t u : Topology} {id : InterfaceId} {gid : GroupId} {g k : Group} {name x y : String}
  {F G : Figure}

def figure (t : Topology) (g : Group) : Figure where
  name := g.name
  mode := g.mode
  isTemplate := g.isTemplate
  source := g.source.bind t.nameOf?
  members := {x | ∃ id ∈ g.members, t.nameOf? id = some x}

def picture (t : Topology) : Set Figure := {F | ∃ g ∈ t.groups, t.figure g = F}

/-- Some interface of the first name has an edge to one of the second name. -/
def Joined (t : Topology) (x y : String) : Prop :=
  ∃ i ∈ t.interfaces, ∃ j ∈ t.interfaces, i.name = x ∧ j.name = y ∧ j.id ∈ i.targets

/-- A sound topology between operations. -/
structure Settled (t : Topology) : Prop where
  sound : Sound t
  wired : Wired t []

theorem empty_settled : Settled empty := ⟨empty_sound, empty_wired⟩

theorem empty_picture : empty.picture = ∅ := by
  ext F
  simp [picture, empty]

/-! ## Figures of groups -/

theorem figure_mem (hg : g ∈ t.groups) : t.figure g ∈ t.picture := ⟨g, hg, rfl⟩

theorem Sound.figure_eq (h : Sound t) (hF : F ∈ t.picture) (hG : G ∈ t.picture)
    (hn : F.name = G.name) :
    F = G := by
  obtain ⟨g, hg, rfl⟩ := hF
  obtain ⟨k, hk, rfl⟩ := hG
  rw [h.named_eq hg hk hn]

theorem Sound.handle_iff (h : Sound t) (hg : g ∈ t.groups) (hk : k ∈ t.groups) :
    k.id = g.id ↔ k.name = g.name := by
  constructor
  · intro hid
    rw [h.group_eq hk hg hid]
  · intro hn
    rw [h.named_eq hk hg hn]

theorem Sound.mem_figure (h : Sound t) (hx : t.nameOf? id = some x) :
    x ∈ (t.figure g).members ↔ id ∈ g.members := by
  constructor
  · rintro ⟨j, hj, hn⟩
    exact h.nameOf?_inj hx hn ▸ hj
  · exact fun hm => ⟨id, hm, hx⟩

theorem Sound.figure_source (h : Sound t) (hg : g ∈ t.groups) (hx : t.nameOf? id = some x) :
    (t.figure g).source = some x ↔ g.source = some id := by
  unfold figure
  cases hs : g.source with
  | none => simp
  | some s =>
    obtain ⟨y, hy⟩ := h.present g hg s (h.sourced g hg s hs)
    simp only [Option.bind_some, hy, Option.some.injEq]
    constructor
    · rintro rfl
      exact h.nameOf?_inj hy hx
    · rintro rfl
      rw [hy] at hx
      exact Option.some.inj hx

theorem Sound.source_none (h : Sound t) (hg : g ∈ t.groups) :
    (t.figure g).source = none ↔ g.source = none := by
  unfold figure
  cases hs : g.source with
  | none => simp
  | some s =>
    obtain ⟨y, hy⟩ := h.present g hg s (h.sourced g hg s hs)
    simp [hy]

theorem figure_insertMember (hx : t.nameOf? id = some x) :
    t.figure (g.insertMember id) = (t.figure g).join x := by
  refine Figure.ext rfl rfl rfl rfl (Set.ext fun y => ?_)
  simp only [figure, Figure.join, Set.mem_ofPred_eq, Set.mem_insert_iff, Group.mem_insertMember]
  constructor
  · rintro ⟨j, rfl | hj, hy⟩
    · rw [hx] at hy
      exact .inl (Option.some.inj hy).symm
    · exact .inr ⟨j, hj, hy⟩
  · rintro (rfl | ⟨j, hj, hy⟩)
    · exact ⟨id, .inl rfl, hx⟩
    · exact ⟨j, .inr hj, hy⟩

theorem members_insertMember (hx : t.nameOf? id = some x) :
    (t.figure (g.insertMember id)).members = insert x (t.figure g).members :=
  congrArg Figure.members (figure_insertMember hx)

/-! ## Edges by name -/

theorem Sound.sends_iff (h : Sound t) (hg : g ∈ t.groups) (hx : t.nameOf? id = some x) :
    (t.figure g).Sends x ↔ g.Sends id := by
  unfold Figure.Sends Group.Sends
  rw [h.figure_source hg hx, h.mem_figure hx]
  exact Iff.rfl

/-- Two interfaces are joined when a group joins them. -/
theorem Settled.joined_iff (h : Settled t) : t.Joined x y ↔ ∃ F ∈ t.picture, F.Joins x y := by
  constructor
  · rintro ⟨i, hi, j, hj, rfl, rfl, ht⟩
    have hi := h.sound.interface?_eq.2 ⟨hi, rfl⟩
    have hj := h.sound.interface?_eq.2 ⟨hj, rfl⟩
    obtain ⟨g, hg, he⟩ := h.wired.called i.id j.id ⟨i, hi, ht⟩
    obtain ⟨hs, hm, hne⟩ := Group.mem_edges.1 he
    have hx : t.nameOf? i.id = some i.name := by simp [nameOf?, hi]
    have hy : t.nameOf? j.id = some j.name := by simp [nameOf?, hj]
    refine ⟨t.figure g, figure_mem hg, (h.sound.sends_iff hg hx).2 hs, ⟨j.id, hm, hy⟩,
      fun hn => hne ?_⟩
    exact h.sound.nameOf?_inj hy (hn ▸ hx)
  · rintro ⟨_, ⟨g, hg, rfl⟩, hs, ⟨b, hb, hy⟩, hne⟩
    have hname : ∃ a, t.nameOf? a = some x := by
      unfold Figure.Sends at hs
      by_cases hp : (t.figure g).mode = .push
      · rw [if_pos hp] at hs
        obtain ⟨a, -, ha⟩ := Option.bind_eq_some_iff.1 hs.2
        exact ⟨a, ha⟩
      · rw [if_neg hp] at hs
        obtain ⟨a, -, ha⟩ := hs
        exact ⟨a, ha⟩
    obtain ⟨a, hx⟩ := hname
    have hab : b ≠ a := by
      rintro rfl
      rw [hy] at hx
      exact hne (Option.some.inj hx)
    have he : (a, b) ∈ g.edges := Group.mem_edges.2 ⟨(h.sound.sends_iff hg hx).1 hs, hb, hab⟩
    obtain ⟨i, hi, ht⟩ := h.wired.made g hg List.not_mem_nil a b he
    obtain ⟨j, hj, hjn⟩ := Option.map_eq_some_iff.1 hy
    obtain ⟨hjm, hjid⟩ := Keyed.get?_mem hj
    obtain ⟨him, -⟩ := Keyed.get?_mem hi
    have hin : i.name = x := by simpa [nameOf?, hi] using hx
    exact ⟨i, him, j, hjm, hin, hjn, hjid.symm ▸ ht⟩

/-! ## Pictures after changes -/

theorem Extends.figure_eq (h : Extends t u) (hs : Sound t) (hg : g ∈ t.groups) :
    u.figure g = t.figure g := by
  have hn : ∀ m ∈ g.members, u.nameOf? m = t.nameOf? m := by
    intro m hm
    obtain ⟨y, hy⟩ := hs.present g hg m hm
    rw [hy, h.naming m y hy]
  refine Figure.ext rfl rfl rfl ?_ (Set.ext fun y => ?_)
  · unfold figure
    cases hsrc : g.source with
    | none => rfl
    | some s => exact hn s (hs.sourced g hg s hsrc)
  · constructor
    · rintro ⟨m, hm, hy⟩
      exact ⟨m, hm, (hn m hm).symm.trans hy⟩
    · rintro ⟨m, hm, hy⟩
      exact ⟨m, hm, (hn m hm).trans hy⟩

theorem Extends.picture_eq (h : Extends t u) (hs : Sound t) : u.picture = t.picture := by
  ext F
  constructor
  · rintro ⟨g, hg, rfl⟩
    rw [h.groups] at hg
    exact ⟨g, hg, (h.figure_eq hs hg).symm⟩
  · rintro ⟨g, hg, rfl⟩
    exact ⟨g, h.groups.symm ▸ hg, h.figure_eq hs hg⟩

theorem regroup_picture {φ : Group → Group} {ψ : Figure → Figure}
    (h : ∀ g ∈ t.groups, t.figure (φ g) = ψ (t.figure g)) :
    (t.regroup φ).picture = ψ '' t.picture := by
  ext F
  constructor
  · rintro ⟨k, hk, rfl⟩
    obtain ⟨g, hg, rfl⟩ := List.mem_map.1 hk
    exact ⟨t.figure g, figure_mem hg, (h g hg).symm⟩
  · rintro ⟨_, ⟨g, hg, rfl⟩, rfl⟩
    exact ⟨φ g, List.mem_map_of_mem hg, h g hg⟩

theorem insertGroup_picture (hn : ∀ k ∈ t.groups, k.id ≠ g.id) :
    (t.insertGroup g).picture = insert (t.figure g) t.picture := by
  ext F
  constructor
  · rintro ⟨k, hk, rfl⟩
    rcases (mem_insertGroup hn).1 hk with rfl | hk
    · exact .inl rfl
    · exact .inr ⟨k, hk, rfl⟩
  · rintro (rfl | ⟨k, hk, rfl⟩)
    · exact ⟨g, (mem_insertGroup hn).2 (.inl rfl), rfl⟩
    · exact ⟨k, (mem_insertGroup hn).2 (.inr hk), rfl⟩

end Topology
end MulticastRelay
