import MulticastRelay.Proofs.Topology.Picture
import MulticastRelay.Proofs.Topology.Rules

/-! # What operations draw

One lemma for each operation on groups: the picture afterwards as a function of the picture before,
and the groups left pending. Interfaces keep their names, and members are only gained.
-/
namespace MulticastRelay

namespace Figure

/-- Changes the figures whose names pass a test. -/
def when (p : String → Prop) [DecidablePred p] (ψ : Figure → Figure) (F : Figure) : Figure :=
  if p F.name then ψ F else F

end Figure

namespace Topology

variable {t u v : Topology} {id : InterfaceId} {gid : GroupId} {g k : Group} {name x : String}
  {q groups : List GroupId} {P : Set Figure} {F : Figure} {f : Group → Group} {ψ : Figure → Figure}

instance (base name : String) : Decidable (InFamily base name) :=
  decidable_of_iff _ inFamily_iff.symm

/-- The second topology is sound with some groups pending and shows `P`; names and matchers are
those of the first. -/
structure Draws (t : Topology) (q : List GroupId) (P : Set Figure) (u : Topology) : Prop where
  sound : Sound u
  wired : Wired u q
  picture : u.picture = P
  matchers : u.matchers = t.matchers
  naming : ∀ id, u.nameOf? id = t.nameOf? id

namespace Draws

theorem self (h : Settled t) : Draws t [] t.picture t := ⟨h.sound, h.wired, rfl, rfl, fun _ => rfl⟩

theorem settled (h : Draws t [] P u) : Settled u := ⟨h.sound, h.wired⟩

theorem recast (h : Draws t q P u) (hr : Recast u v) (hw : Wired v groups) :
    Draws t groups P v where
  sound := hr.sound h.sound
  wired := hw
  picture := (hr.toExtends.picture_eq h.sound).trans h.picture
  matchers := hr.matchers.trans h.matchers
  naming id := (hr.naming id).trans (h.naming id)

theorem associate (h : Draws t (gid :: q) P u) : Draws t q P (u.associate gid).2 :=
  h.recast (associate_spec h.sound gid).1 (h.wired.associate h.sound)

theorem associateAll (h : Draws t groups P u) : Draws t [] P (u.associateAll groups).2 := by
  obtain ⟨hr, hw⟩ := associateAll_spec h.sound h.wired
  exact h.recast hr hw

end Draws

/-! ## Changes of one group -/

theorem modifyGroup_draws (h : Settled t) (hg : g ∈ t.groups) (hf : Refits t g (f g))
    (hψ : t.figure (f g) = ψ (t.figure g)) (hmore : ∀ e ∈ g.edges, e ∈ (f g).edges)
    (hq : g.id ∉ q → ∀ e ∈ (f g).edges, e ∈ g.edges) :
    Draws t q (Figure.when (· = g.name) ψ '' t.picture) (t.modifyGroup g.id f) := by
  have hone : ∀ k ∈ t.groups, k.id = g.id → k = g := fun k hk he =>
    List.inj_on_of_nodup_map h.sound.handles hk hg he
  rw [modifyGroup_eq]
  refine ⟨regroup_sound h.sound fun k hk => ?_,
    regroup_wired h.wired (fun k hk => ?_) (fun k hk => ?_) (fun k hk => ?_),
    regroup_picture fun k hk => ?_, rfl, fun _ => rfl⟩
  · by_cases he : k.id = g.id
    · rw [if_pos he, hone k hk he]
      exact hf
    · rw [if_neg he]
      exact h.sound.refits_self hk
  · by_cases he : k.id = g.id
    · rw [if_pos he, hone k hk he]
      exact hf.id
    · rw [if_neg he]
  · by_cases he : k.id = g.id
    · rw [if_pos he, hone k hk he]
      exact hmore
    · rw [if_neg he]
      exact fun _ h => h
  · by_cases he : k.id = g.id
    · rw [if_pos he, hone k hk he]
      exact hq
    · rw [if_neg he]
      exact fun _ _ h => h
  · by_cases he : k.id = g.id
    · rw [if_pos he, hone k hk he, hψ]
      exact (if_pos rfl).symm
    · rw [if_neg he]
      exact (if_neg fun hn => he ((h.sound.handle_iff hg hk).2 hn)).symm

theorem when_id_image (p : String → Prop) [DecidablePred p] :
    Figure.when p (fun F => F) '' P = P := by
  have : Figure.when p (fun F => F) = id := by
    funext F
    simp [Figure.when]
  rw [this, Set.image_id]

/-- A change that does not show leaves the picture. -/
theorem modifyGroup_draws_self (h : Settled t) (hg : g ∈ t.groups) (hid : (f g).id = g.id)
    (hs : (f g).source = g.source) (hm : (f g).members = g.members) (hname : (f g).name = g.name)
    (hmode : (f g).mode = g.mode) (ht : (f g).isTemplate = g.isTemplate) :
    Draws t [] t.picture (t.modifyGroup g.id f) := by
  have hψ : t.figure (f g) = t.figure g := by
    unfold figure
    rw [hname, hmode, ht, hs, hm]
  have hf : Refits t g (f g) :=
    ⟨hid, hname, fun m hx => h.sound.present g hg m (hm ▸ hx), fun s hx => by
      rw [hm]
      exact h.sound.sourced g hg s (hs ▸ hx)⟩
  have hd := modifyGroup_draws (q := []) (ψ := fun F => F) h hg hf hψ
    (fun e he => Group.mem_edges_of_members hmode ht hs (fun m hx => hm.symm ▸ hx) he)
    (fun _ e he => Group.mem_edges_of_members hmode.symm ht.symm hs.symm (fun m hx => hm ▸ hx) he)
  rwa [when_id_image] at hd

/-! ## Groups and members -/

theorem addGroup_draws (h : Settled t) (hn : ∀ F ∈ t.picture, F.name ≠ name) (mode : Mode)
    (relayType : RelayType) :
    Draws t [] (insert ⟨name, mode, false, none, ∅⟩ t.picture)
      (t.addGroup name mode relayType).2 := by
  have hfree : ∀ k ∈ t.groups, k.name ≠ name := fun k hk => hn _ (figure_mem hk)
  have hnone : t.groupNamed? name = none := h.sound.groupNamed?_eq_none_iff.2 hfree
  have ha : (t.addGroup name mode relayType).2 =
      t.insertGroup { id := ⟨t.lastGroup + 1⟩, name, mode, relayType } := by
    unfold addGroup
    rw [hnone]
  rw [ha]
  refine ⟨insertGroup_sound h.sound ⟨rfl, hfree, ?_, ?_⟩,
    insertGroup_wired h.wired h.sound.unissued fun _ => ?_, ?_, rfl, fun _ => rfl⟩
  · exact fun _ hm => absurd hm List.not_mem_nil
  · exact fun _ hs => by cases hs
  · cases mode <;> rfl
  · rw [insertGroup_picture h.sound.unissued]
    congr 1
    refine Figure.ext rfl rfl rfl rfl (Set.ext fun y => ?_)
    simp [figure]

theorem insertMember_refits (h : Sound t) (hg : g ∈ t.groups) (hx : t.nameOf? id = some x) :
    Refits t g (g.insertMember id) where
  id := rfl
  name := rfl
  present m hm := by
    rcases Group.mem_insertMember.1 hm with rfl | hm
    · exact ⟨x, hx⟩
    · exact h.present g hg m hm
  sourced s hs := Group.mem_insertMember.2 (.inr (h.sourced g hg s hs))

theorem addMember_destination (h : Settled t) (hx : t.nameOf? id = some x) (hg : g ∈ t.groups) :
    ∃ u, t.addMember g.id id .destination = .ok u ∧
      Draws t [g.id] (Figure.when (· = g.name) (Figure.join x) '' t.picture) u := by
  obtain ⟨i, hi, -⟩ := Option.map_eq_some_iff.1 hx
  refine ⟨_, ?_, modifyGroup_draws (f := (·.insertMember id)) h hg
    (insertMember_refits h.sound hg hx) (figure_insertMember hx) (fun e he => ?_)
    fun hq => absurd (List.mem_singleton_self _) hq⟩
  · unfold addMember
    rw [hi, h.sound.group?_eq.2 ⟨hg, rfl⟩]
    simp
  · exact Group.mem_edges_of_members (g := g) (k := g.insertMember id) rfl rfl rfl
      (fun m hm => Group.mem_insertMember.2 (.inr hm)) he

theorem addMember_source (h : Settled t) (hx : t.nameOf? id = some x) (hg : g ∈ t.groups)
    (hm : g.mode = .push) (hs : g.source = none) :
    ∃ u, t.addMember g.id id .source = .ok u ∧
      Draws t [g.id] (Figure.when (· = g.name) (Figure.aim x) '' t.picture) u := by
  obtain ⟨i, hi, -⟩ := Option.map_eq_some_iff.1 hx
  have hr := insertMember_refits h.sound hg hx
  refine ⟨_, ?_, modifyGroup_draws (q := [g.id])
    (f := fun g =>
      if g.mode = .push then (g.insertMember id).setSource id else g.insertMember id)
    h hg ?_ ?_ ?_ fun hq => absurd (List.mem_singleton_self _) hq⟩
  · unfold addMember
    rw [hi, h.sound.group?_eq.2 ⟨hg, rfl⟩]
    simp [Group.insertMember]
  · rw [if_pos hm]
    refine ⟨rfl, rfl, hr.present, fun s hsrc => ?_⟩
    cases hsrc
    exact Group.mem_insertMember.2 (.inl rfl)
  · rw [if_pos hm]
    refine Figure.ext rfl rfl rfl ?_ (members_insertMember (g := g) hx)
    simp [figure, Group.setSource, Figure.aim, hx]
  · rw [Group.edges_of_no_source hm hs]
    exact fun e he => absurd he List.not_mem_nil

/-- A stem registered as the source of a push group without one makes it a template. -/
theorem addMatcher_source (h : Settled t) (hg : g ∈ t.groups) (hm : g.mode = .push)
    (hs : g.source = none) (stem : String) :
    ∃ m u, t.addMatcher g.id stem .source =
      .ok (m, { u with matchers := (t.matchers.insert m).2 }) ∧
      m.stem = stem ∧ m.group = g.name ∧ m.role = .source ∧
      Draws t [] (Figure.when (· = g.name) Figure.makeTemplate '' t.picture) u := by
  refine ⟨⟨stem, g.name, .source, g.mode, g.relayType⟩, t.modifyGroup g.id Group.makeTemplate, ?_,
    rfl, rfl, rfl, modifyGroup_draws h hg
      ⟨rfl, rfl, h.sound.present g hg, fun s hsrc => by cases hsrc⟩ rfl ?_ ?_⟩
  · unfold addMatcher
    rw [h.sound.group?_eq.2 ⟨hg, rfl⟩]
    simp [hm, modifyGroup]
  · rw [Group.edges_of_no_source hm hs]
    exact fun e he => absurd he List.not_mem_nil
  · intro _ e he
    rw [Group.edges_of_no_source (g := g.makeTemplate) hm rfl] at he
    exact absurd he List.not_mem_nil

theorem addMatcher_destination (h : Sound t) (hg : g ∈ t.groups) (stem : String) :
    ∃ m, t.addMatcher g.id stem .destination =
      .ok (m, { t with matchers := (t.matchers.insert m).2 }) ∧
      m.stem = stem ∧ m.group = g.name ∧ m.role = .destination := by
  refine ⟨⟨stem, g.name, .destination, g.mode, g.relayType⟩, ?_, rfl, rfl, rfl⟩
  unfold addMatcher
  rw [h.group?_eq.2 ⟨hg, rfl⟩]
  simp

end Topology
end MulticastRelay
