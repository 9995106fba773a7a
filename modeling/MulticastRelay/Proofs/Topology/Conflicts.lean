import MulticastRelay.Proofs.Topology.Bindings
import MulticastRelay.Proofs.Topology.Families

/-! # Conflicts

An edge that another group has already is all that a pass can find wrong. Where a matcher has its
group, and a push group if it waits for sources, a scan of the links finds nothing wrong but that.
-/
namespace MulticastRelay

/-- A wanted edge belongs to another group. -/
def TopologyError.IsConflict (e : TopologyError) : Prop :=
  ∃ edge owner count, e = .conflict edge owner count

namespace Topology

variable {t u : Topology} {g : Group} {m : Matcher} {link : Link} {touched : List GroupId}
  {e : TopologyError} {gid : GroupId}

theorem associate_error (hg : t.group? gid = some g) (he : (t.associate gid).1 = .error e) :
    e.IsConflict := by
  rw [associate_eq hg] at he
  unfold AssociationTally.outcome at he
  dsimp only at he
  split at he
  · cases he
    exact ⟨_, _, _, rfl⟩
  · cases he

/-- The first error is kept. -/
theorem isConflict_first {found : Option TopologyError} {f : TopologyError} (hf : f.IsConflict)
    (hfound : ∀ e, found = some e → e.IsConflict) :
    ∀ e, (found <|> some f) = some e → e.IsConflict := by
  intro e he
  cases found with
  | none =>
    cases he
    exact hf
  | some found =>
    cases he
    exact hfound _ rfl

theorem associateAll_error (gids : List GroupId) (hg : ∀ gid ∈ gids, ∃ g, t.group? gid = some g)
    (he : (t.associateAll gids).1 = some e) : e.IsConflict := by
  -- The invariant of the walk: the first error so far is a conflict, and the groups are the same.
  suffices hwalk : (∀ e, (t.associateAll gids).1 = some e → e.IsConflict) ∧
      (t.associateAll gids).2.groups = t.groups from hwalk.1 e he
  unfold associateAll
  refine List.foldlRecOn gids _ (motive := fun s : Option TopologyError × Topology =>
    (∀ e, s.1 = some e → e.IsConflict) ∧ s.2.groups = t.groups) ⟨?_, rfl⟩ ?_
  · intro e he
    cases he
  · rintro ⟨found, u⟩ ⟨hfound, hu⟩ gid hgid
    obtain ⟨g, hg⟩ := hg gid hgid
    have hg : u.group? gid = some g := (group?_congr hu gid).trans hg
    have hgroups : (u.associate gid).2.groups = t.groups := (associate_groups u gid).trans hu
    dsimp only
    split
    · exact ⟨hfound, hgroups⟩
    · rename_i f hf
      exact ⟨isConflict_first (associate_error hg hf) hfound, hgroups⟩

/-- A matcher has its group, and one for sources has a push group. -/
def Served (t : Topology) (m : Matcher) : Prop :=
  ∃ g ∈ t.groups, g.name = m.group ∧ (m.role = .source → g.mode = .push)

theorem Served.congr (h : t.Served m) (hg : u.groups = t.groups) : u.Served m := by
  obtain ⟨g, hmem, hrest⟩ := h
  exact ⟨g, hg ▸ hmem, hrest⟩

theorem Served.not_refuses (h : t.Served m) (hi : Intact t) : ¬t.Refuses m link := by
  obtain ⟨g, hg, hn, hm⟩ := h
  intro hr
  unfold Refuses at hr
  split at hr
  · have hin := hi.mem_groupsSharingName.2 ⟨g, hg, .inl hn, rfl⟩
    rw [hr] at hin
    exact absurd hin List.not_mem_nil
  · rename_i hrole
    exact hr.2 g (hi.groupNamed?_eq.2 ⟨hg, hn⟩) (hm hrole)

theorem Binds.groups (h : t.Binds m link touched u) (hi : Intact t) (hu : Intact u) :
    ∀ gid ∈ touched, ∃ g, u.group? gid = some g := by
  intro gid hgid
  cases h with
  | joined _ _ =>
    obtain ⟨g, hg, -, rfl⟩ := hi.mem_groupsSharingName.1 hgid
    exact ⟨_, hu.group?_eq.2 ⟨List.mem_map_of_mem hg, (enroll_gains _ g).id⟩⟩
  | taken _ hg =>
    cases List.mem_singleton.1 hgid
    have hin := (hi.groupNamed?_eq.1 hg).1
    exact ⟨_, hu.group?_eq.2 ⟨List.mem_map_of_mem hin, by rw [if_pos rfl]; rfl⟩⟩
  | made _ _ _ _ =>
    cases List.mem_singleton.1 hgid
    exact ⟨_, hu.group?_eq.2 ⟨(mem_insertGroup hi.unissued).2 (.inl rfl), rfl⟩⟩

theorem Served.resolve (h : t.Served m) (hi : Intact t) (link : Link) :
    (t.resolve m link).2.Served m := by
  obtain ⟨g, hg, hn, hm⟩ := h
  obtain ⟨k, hk, hp⟩ := (hi.resolve_rebound m link).kept g hg
  exact ⟨k, hk, hp.name.trans hn, fun hr => hp.mode.trans (hm hr)⟩

/-- Once a link is bound, all that can go wrong is a pass that meets an edge of another group. -/
theorem Binds.resolve_error
    (hb : (t.addInterface ⟨link.index⟩ link.name).Binds m link touched u) (hi : Intact t)
    (he : (t.resolve m link).1 = .error e) : e.IsConflict := by
  have ha := hi.addInterface ⟨link.index⟩ link.name
  have hu := hb.intact ha (hi.addInterface_has _ _)
  rw [hi.resolve_of_binds hb] at he
  dsimp only at he
  split at he
  · rename_i f hf
    cases he
    exact associateAll_error touched (hb.groups ha hu) hf
  · cases he

theorem Served.resolve_error (h : t.Served m) (hi : Intact t)
    (he : (t.resolve m link).1 = .error e) : e.IsConflict := by
  have hs : (t.addInterface ⟨link.index⟩ link.name).Served m := h.congr addInterface_groups
  rcases refuses_or_binds (t.addInterface ⟨link.index⟩ link.name) m link with hr | ⟨_, _, hb⟩
  · exact absurd hr (hs.not_refuses (hi.addInterface _ _))
  · exact hb.resolve_error hi he

/-- A scan of the links for a matcher that has its group ends well or in a conflict. -/
theorem Served.matchLinks_error (h : t.Served m) (hi : Intact t) {links : List Link}
    (he : (t.matchLinks m links).1 = .error e) : e.IsConflict := by
  have hwalk := List.foldlRecOn (links.filter fun l => l.up && m.accepts l.name) (matchLinks.step m)
    (motive := fun s : Nat × Option TopologyError × Topology =>
      (∀ e, s.2.1 = some e → e.IsConflict) ∧ s.2.2.Served m ∧ Intact s.2.2)
    (b := (0, none, t)) ⟨(fun _ he => nomatch he), h, hi⟩ ?_
  · unfold matchLinks at he
    dsimp only at he
    split at he
    · rename_i f hf
      cases he
      exact hwalk.1 e hf
    · cases he
  · rintro ⟨bound, found, u⟩ ⟨hfound, hs, hu⟩ link -
    have hnext := hs.resolve hu link
    have hintact := hu.resolve m link
    unfold matchLinks.step
    dsimp only
    split
    · rename_i v hv
      rw [hv] at hnext hintact
      exact ⟨hfound, hnext, hintact⟩
    · rename_i f v hv
      rw [hv] at hnext hintact
      exact ⟨isConflict_first (hs.resolve_error hu (congrArg Prod.fst hv)) hfound, hnext, hintact⟩

end Topology
end MulticastRelay
