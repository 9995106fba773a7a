import MulticastRelay.Proofs.Topology.Bearers
import MulticastRelay.Proofs.Topology.Conflicts

/-! # Links that are refused

A matcher whose group is gone refuses every link, and so does one that waits for sources where its
group is no push group. The interface of the link is found, renamed or made before that shows, and
nobody takes this back. A refusal leaves no trace exactly where the interface was there before under
the name of the link and the name answered for it.
-/
namespace MulticastRelay

/-- There is no group, or none that takes a source. -/
def TopologyError.IsRefusal (e : TopologyError) : Prop :=
  (∃ name, e = .unknownGroup name) ∨ ∃ name, e = .notPushGroup name

theorem TopologyError.IsConflict.not_isRefusal {e : TopologyError} (h : e.IsConflict) :
    ¬e.IsRefusal := by
  obtain ⟨edge, owner, count, rfl⟩ := h
  rintro (⟨name, he⟩ | ⟨name, he⟩)
  · cases he
  · cases he

namespace Topology

variable {t u : Topology} {m : Matcher} {link : Link} {e : TopologyError} {id : InterfaceId}
  {name : String}

/-- Every lookup finds the same in both topologies. -/
structure Unchanged (t u : Topology) : Prop where
  interfaces : u.interfaces = t.interfaces
  holders : ∀ x, u.holderOf? x = t.holderOf? x
  groups : u.groups = t.groups
  groupNames : u.groupNames = t.groupNames
  matchers : u.matchers = t.matchers
  lastGroup : u.lastGroup = t.lastGroup

/-- A scan of one link that is up and accepted is one resolution. -/
theorem matchLinks_singleton (hu : link.up = true) (ha : m.accepts link.name = true) :
    t.matchLinks m [link] = ((t.resolve m link).1.map fun _ => 1, (t.resolve m link).2) := by
  have hlinks : [link].filter (fun l => l.up && m.accepts l.name) = [link] := by
    simp [hu, ha]
  unfold matchLinks
  rw [hlinks, List.foldl_cons, List.foldl_nil]
  unfold matchLinks.step
  dsimp only
  rcases t.resolve m link with ⟨e | touched, u⟩
  · rfl
  · rfl

/-- What a refusal leaves is the interface of the link. -/
theorem Intact.resolve_refused (h : Intact t) (he : (t.resolve m link).1 = .error e)
    (hr : e.IsRefusal) : (t.resolve m link).2 = t.addInterface ⟨link.index⟩ link.name := by
  rcases refuses_or_binds (t.addInterface ⟨link.index⟩ link.name) m link with hno | ⟨touched, u, hb⟩
  · obtain ⟨f, hf⟩ := h.resolve_of_refuses hno
    rw [hf]
  · exact absurd hr (hb.resolve_error h he).not_isRefusal

/-- An interface is found or made without a trace if it is there and answers to the name. -/
theorem Intact.addInterface_unchanged_iff (h : Intact t) :
    Unchanged t (t.addInterface id name) ↔
      t.nameOf? id = some name ∧ t.holderOf? name = some id := by
  constructor
  · intro hs
    constructor
    · have hname : (t.addInterface id name).nameOf? id = some name := by
        rw [h.nameOf?_addInterface, if_pos rfl]
      unfold nameOf? interface? at hname ⊢
      rwa [hs.interfaces] at hname
    · rw [← hs.holders, holderOf?_rename, if_pos rfl]
  · rintro ⟨hname, hholder⟩
    refine ⟨?_, (h.addInterface_again hname hholder).holders, addInterface_groups,
      addInterface_groupNames, addInterface_matchers, addInterface_lastGroup⟩
    obtain ⟨i, hi, rfl⟩ := Option.map_eq_some_iff.1 hname
    have hself : t.modifyInterface id (fun j => { j with name := i.name }) = t := by
      refine h.modifyInterface_self fun j hj => ?_
      rw [hi] at hj
      cases hj
      rfl
    have hadd : (t.addInterface id i.name).interfaces =
        (t.modifyInterface id fun j => { j with name := i.name }).interfaces := by
      unfold Topology.addInterface
      rw [hi]
    rw [hadd, hself]

/-- A refused link leaves its interface behind and nothing else. The topology is what it was exactly
if that interface was there under the name of the link and answered to it. -/
theorem refusal_traceless_iff (h : Reachable t) (hu : link.up = true)
    (ha : m.accepts link.name = true) (he : (t.matchLinks m [link]).1 = .error e)
    (hr : e.IsRefusal) :
    (t.matchLinks m [link]).2 = t.addInterface ⟨link.index⟩ link.name ∧
      (Unchanged t (t.matchLinks m [link]).2 ↔
        t.nameOf? ⟨link.index⟩ = some link.name ∧
          t.holderOf? link.name = some ⟨link.index⟩) := by
  rw [matchLinks_singleton hu ha] at he ⊢
  have hleft : (t.resolve m link).2 = t.addInterface ⟨link.index⟩ link.name := by
    cases hf : (t.resolve m link).1 with
    | ok touched =>
      rw [hf] at he
      cases he
    | error f =>
      rw [hf] at he
      cases he
      exact h.intact.resolve_refused hf hr
  dsimp only
  rw [hleft]
  exact ⟨rfl, h.intact.addInterface_unchanged_iff⟩

/-- A mesh with a wildcard for sources. -/
def sourcedMesh : List Event :=
  [.addGroup "mesh" .merge .classicalFlooding, .addMatcher ⟨1⟩ "ppp" .source]

/-- A link that the mesh refuses is an interface of no group afterwards. -/
theorem sourcedMesh_keeps_trace :
    ¬Unchanged (after sourcedMesh)
      ((after sourcedMesh).matchLinks ⟨"ppp", "mesh", .source, .merge, .classicalFlooding⟩
        [⟨"ppp0", 10, true⟩]).2 := by
  have hrefused : ((after sourcedMesh).matchLinks
      ⟨"ppp", "mesh", .source, .merge, .classicalFlooding⟩ [⟨"ppp0", 10, true⟩]).1 =
      .error (.notPushGroup "mesh") := by
    decide +kernel
  have hunknown : (after sourcedMesh).nameOf? ⟨10⟩ ≠ some "ppp0" := by
    decide +kernel
  have hiff := refusal_traceless_iff (after_reachable sourcedMesh) rfl (by decide +kernel) hrefused
    (.inr ⟨"mesh", rfl⟩)
  intro hsame
  exact hunknown (hiff.2.1 hsame).1

end Topology
end MulticastRelay
