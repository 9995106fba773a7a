import MulticastRelay.Proofs.Topology.Reports

/-! # Who joins a group

A matcher for destinations makes the link a member of its group, and no resolution takes a member out
again. A matcher for the sources of a group leaves that group itself alone, as does every matcher of a
family that the group is not in.
-/
namespace MulticastRelay

/-- A matcher for the sources of a group, or of a family that the group is not in. -/
def Matcher.PassesBy (m : Matcher) (name : String) : Prop :=
  m.role = .source ∧ m.group = name ∨ ¬Topology.InFamily m.group name

namespace Topology

variable {t u : Topology} {g : Group} {m : Matcher} {link : Link} {touched : List GroupId}
  {gid : GroupId} {x : InterfaceId} {ps : List (Matcher × Link)}

def HasMember (t : Topology) (gid : GroupId) (x : InterfaceId) : Prop :=
  ∃ g, t.group? gid = some g ∧ x ∈ g.members

theorem HasMember.resolve (h : t.HasMember gid x) (hi : Intact t) (m : Matcher) (link : Link) :
    (t.resolve m link).2.HasMember gid x := by
  obtain ⟨g, hg, hx⟩ := h
  obtain ⟨k, hk, htakes⟩ := hi.resolve_fills m link gid g hg
  exact ⟨k, hk, htakes.members x hx⟩

theorem HasMember.resolveAll (h : t.HasMember gid x) (hi : Intact t) (ps : List (Matcher × Link)) :
    (t.resolveAll ps).HasMember gid x := by
  induction ps generalizing t with
  | nil => exact h
  | cons p ps ih => exact ih (h.resolve hi p.1 p.2) (hi.resolve p.1 p.2)

/-! ## Groups passed by -/

theorem Binds.not_mem_of_passesBy (h : t.Binds m link touched u) (hi : Intact t) (hg : g ∈ t.groups)
    (hp : m.PassesBy g.name) : g.id ∉ touched := by
  intro hin
  cases h with
  | joined hr _ =>
    obtain ⟨k, hk, hfamily, hid⟩ := hi.mem_groupsSharingName.1 hin
    cases hi.group_eq hk hg hid
    rcases hp with ⟨hs, -⟩ | hno
    · rw [hs] at hr
      cases hr
    · exact hno hfamily
  | taken _ hk =>
    obtain ⟨hk, hname⟩ := hi.groupNamed?_eq.1 hk
    cases hi.group_eq hg hk (List.mem_singleton.1 hin)
    rw [hname] at hp
    rcases hp with ⟨-, hself⟩ | hno
    · exact instanceName_ne m.group link.name hself.symm
    · exact hno (inFamily_instance m.group link.name)
  | made _ _ _ _ =>
    have hissued := hi.issued g hg
    rw [List.mem_singleton.1 hin] at hissued
    exact Nat.not_succ_le_self _ hissued

theorem Intact.resolve_passes (h : Intact t) (hg : t.group? gid = some g) (hp : m.PassesBy g.name)
    (link : Link) : (t.resolve m link).2.group? gid = some g := by
  have ha := h.addInterface ⟨link.index⟩ link.name
  have hfirst : (t.addInterface ⟨link.index⟩ link.name).group? gid = some g :=
    (group?_congr addInterface_groups gid).trans hg
  rcases h.resolve_cases m link with ⟨-, e, he⟩ | ⟨touched, u, hb, he⟩
  · rw [he]
    exact hfirst
  · have hu := hb.intact ha (h.addInterface_has _ _)
    obtain ⟨hmem, hid⟩ := ha.group?_eq.1 hfirst
    have hout : gid ∉ touched := hid ▸ hb.not_mem_of_passesBy ha hmem hp
    rw [he, group?_congr (associateAll_groups u touched), hb.group?_of_not_mem ha hu hout]
    exact hfirst

theorem Intact.resolveAll_passes (h : Intact t) (hg : t.group? gid = some g)
    (hps : ∀ p ∈ ps, p.1.PassesBy g.name) : (t.resolveAll ps).group? gid = some g := by
  induction ps generalizing t with
  | nil => exact hg
  | cons p ps ih =>
    obtain ⟨hp, hrest⟩ := List.forall_mem_cons.1 hps
    exact ih (h.resolve p.1 p.2) (h.resolve_passes hg hp p.2) hrest

/-! ## Groups joined -/

theorem Intact.resolve_joins (h : Intact t) (hg : g ∈ t.groups) (hr : m.role = .destination)
    (hn : m.group = g.name) (link : Link) : (t.resolve m link).2.HasMember g.id ⟨link.index⟩ := by
  have ha := h.addInterface ⟨link.index⟩ link.name
  have hga : g ∈ (t.addInterface ⟨link.index⟩ link.name).groups := by
    rw [addInterface_groups]
    exact hg
  have hserved : (t.addInterface ⟨link.index⟩ link.name).Served m :=
    ⟨g, hga, hn.symm, fun hs => by rw [hr] at hs; cases hs⟩
  rcases h.resolve_cases m link with ⟨hno, -⟩ | ⟨touched, u, hb, he⟩
  · exact absurd hno (hserved.not_refuses ha)
  · rw [he]
    have hu := hb.intact ha (h.addInterface_has _ _)
    cases hb with
    | joined _ _ =>
      have hin : g.id ∈ (t.addInterface ⟨link.index⟩ link.name).groupsSharingName m.group :=
        ha.mem_groupsSharingName.2 ⟨g, hga, hn ▸ inFamily_self g.name, rfl⟩
      have hgains : Group.Gains ⟨link.index⟩ _ g (enroll ⟨link.index⟩
          ((t.addInterface ⟨link.index⟩ link.name).groupsSharingName m.group) g) :=
        enroll_gains _ g
      refine ⟨_, (group?_congr (associateAll_groups _ _) g.id).trans
        (hu.group?_eq.2 ⟨List.mem_map_of_mem hga, hgains.id⟩), (hgains.members _).2 ?_⟩
      -- A group is not joined by its own source, which is a member already.
      by_cases hs : g.source = some ⟨link.index⟩
      · exact .inl ((ha.peopled g hga).sourced _ hs)
      · exact .inr ⟨⟨hin, hs⟩, rfl⟩
    | taken hs _ =>
      rw [hr] at hs
      cases hs
    | made hs _ _ _ =>
      rw [hr] at hs
      cases hs

theorem Intact.resolveAll_joins (h : Intact t) (hg : g ∈ t.groups) (hp : (m, link) ∈ ps)
    (hr : m.role = .destination) (hn : m.group = g.name) :
    (t.resolveAll ps).HasMember g.id ⟨link.index⟩ := by
  induction ps generalizing t g with
  | nil => exact absurd hp List.not_mem_nil
  | cons p ps ih =>
    have hu := h.resolve p.1 p.2
    rcases List.mem_cons.1 hp with rfl | hp
    · exact (h.resolve_joins hg hr hn link).resolveAll hu ps
    · obtain ⟨k, hk, hpersists⟩ := (h.resolve_rebound p.1 p.2).kept g hg
      have hjoined := ih hu hk hp (hn.trans hpersists.name.symm)
      rwa [hpersists.id] at hjoined

end Topology
end MulticastRelay
