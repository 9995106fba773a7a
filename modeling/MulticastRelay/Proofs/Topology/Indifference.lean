import MulticastRelay.Proofs.Topology.Bindings
import MulticastRelay.Proofs.Topology.Rules

/-! # Resolution and the table of matchers

A matcher is resolved without a look at the table, and the table stays as it is. Topologies that
differ in their matchers alone stay alike under every resolution, and under a link that comes up if
their tables agree on its name. A matcher that is added is found under the names of its stem only.
-/
namespace MulticastRelay

theorem MatcherTable.matching_insert_of_not {m : Matcher} {name : String}
    (h : isStemOf m.stem name = false) (table : MatcherTable) :
    (table.insert m).2.matching name = table.matching name := by
  -- The only bucket that the matcher makes or changes is passed over.
  have hother : ∀ b : Bucket, isStemOf b.stem name = true → b.stem ≠ m.stem := by
    intro b hb he
    rw [he, h] at hb
    cases hb
  have hmodify : ∀ (f : Bucket → Bucket) (bs : List Bucket), (∀ b, (f b).stem = b.stem) →
      (Keyed.modify Bucket.stem m.stem f bs).filter (fun b => isStemOf b.stem name) =
        bs.filter (fun b => isStemOf b.stem name) := by
    intro f bs hf
    induction bs with
    | nil => rfl
    | cons b bs ih =>
      have hcons : Keyed.modify Bucket.stem m.stem f (b :: bs) =
          (if b.stem = m.stem then f b else b) :: Keyed.modify Bucket.stem m.stem f bs := rfl
      rw [hcons, List.filter_cons, List.filter_cons, ih]
      by_cases hb : isStemOf b.stem name = true
      · rw [if_neg (hother b hb), if_pos hb]
      · have hno : ¬isStemOf (if b.stem = m.stem then f b else b).stem name = true := by
          split
          · rwa [hf]
          · exact hb
        rw [if_neg hb, if_neg hno]
  have hready : (Ascending.insert Bucket.before ⟨m.stem, []⟩ table.buckets).filter
      (fun b => isStemOf b.stem name) = table.buckets.filter (fun b => isStemOf b.stem name) :=
    Ascending.filter_insert_of_neg (by simp [h]) table.buckets
  have hbuckets : (table.insert m).2.buckets.filter (fun b => isStemOf b.stem name) =
      table.buckets.filter (fun b => isStemOf b.stem name) := by
    rw [buckets_insert]
    refine (hmodify _ _ ?_).trans hready
    exact fun _ => rfl
  rw [matching_eq, matching_eq, List.filter_reverse, List.filter_reverse, hbuckets]

namespace Topology

variable {t u v : Topology} {table : MatcherTable}

/-- The topology with another table of matchers. -/
def withMatchers (t : Topology) (table : MatcherTable) : Topology := { t with matchers := table }

/-! ## The parts of a resolution -/

section

variable (table : MatcherTable) (t : Topology)

theorem addInterface_withMatchers (id : InterfaceId) (name : String) :
    (t.withMatchers table).addInterface id name = (t.addInterface id name).withMatchers table := by
  have hi : (t.withMatchers table).interface? id = t.interface? id := rfl
  unfold addInterface
  rw [hi]
  cases t.interface? id <;> rfl

theorem removeInterface_withMatchers (id : InterfaceId) :
    (t.withMatchers table).removeInterface id = (t.removeInterface id).withMatchers table := by
  cases hi : t.interface? id with
  | none =>
    have hm : (t.withMatchers table).interface? id = none := hi
    rw [removeInterface_of_none hi, removeInterface_of_none hm]
  | some i =>
    have hm : (t.withMatchers table).interface? id = some i := hi
    rw [removeInterface_eq hi, removeInterface_eq hm]
    rfl

theorem connect_withMatchers (owner : GroupId) (e : Edge) (tally : AssociationTally) :
    (t.withMatchers table).connect owner e tally =
      ((t.connect owner e tally).1.withMatchers table, (t.connect owner e tally).2) := by
  have hi : ∀ id, (t.withMatchers table).interface? id = t.interface? id := fun _ => rfl
  unfold connect
  rw [hi, hi]
  cases t.interface? e.2 <;> cases t.interface? e.1 <;> rfl

theorem connectAll_withMatchers (owner : GroupId) (edges : List Edge) :
    (t.withMatchers table).connectAll owner edges =
      ((t.connectAll owner edges).1.withMatchers table, (t.connectAll owner edges).2) := by
  unfold connectAll
  generalize ({} : AssociationTally) = tally
  induction edges generalizing t tally with
  | nil => rfl
  | cons e edges ih =>
    rw [List.foldl_cons, List.foldl_cons]
    dsimp only
    rw [connect_withMatchers]
    exact ih _ _

theorem updateCapture_withMatchers (ids : List InterfaceId) :
    (t.withMatchers table).updateCapture ids = (t.updateCapture ids).withMatchers table := by
  induction ids generalizing t with
  | nil => rfl
  | cons id ids ih => exact ih (t.modifyInterface id Interface.updateCapture)

theorem associate_withMatchers (gid : GroupId) :
    (t.withMatchers table).associate gid =
      ((t.associate gid).1, (t.associate gid).2.withMatchers table) := by
  cases hg : t.group? gid with
  | none =>
    have hm : (t.withMatchers table).group? gid = none := hg
    unfold associate
    rw [hg, hm]
  | some g =>
    have hm : (t.withMatchers table).group? gid = some g := hg
    rw [associate_eq hg, associate_eq hm, connectAll_withMatchers, updateCapture_withMatchers]

theorem associateAll_withMatchers (gids : List GroupId) :
    (t.withMatchers table).associateAll gids =
      ((t.associateAll gids).1, (t.associateAll gids).2.withMatchers table) := by
  unfold associateAll
  generalize (none : Option TopologyError) = found
  induction gids generalizing t found with
  | nil => rfl
  | cons gid gids ih =>
    rw [List.foldl_cons, List.foldl_cons]
    dsimp only
    rw [associate_withMatchers]
    cases (t.associate gid).1 with
    | ok _ => exact ih _ _
    | error _ => exact ih _ _

theorem instantiate_withMatchers (template : String) (id : InterfaceId) (name : String) :
    (t.withMatchers table).instantiate template id name =
      (t.instantiate template id name).map fun r => (r.1, r.2.withMatchers table) := by
  have hh : ∀ x, (t.withMatchers table).handleOf? x = t.handleOf? x := fun _ => rfl
  have hg : ∀ x, (t.withMatchers table).groupNamed? x = t.groupNamed? x := fun _ => rfl
  unfold instantiate
  dsimp only
  rw [hh, hg]
  cases t.handleOf? (instanceName template name) with
  | some g => rfl
  | none =>
    cases t.groupNamed? template with
    | none => rfl
    | some base =>
      dsimp only
      by_cases hm : base.mode = .push
      · rw [if_pos hm, if_pos hm]
        rfl
      · rw [if_neg hm, if_neg hm]
        rfl

theorem bindTo_withMatchers (m : Matcher) (link : Link) :
    (t.withMatchers table).bindTo m link =
      (t.bindTo m link).map fun r => (r.1, r.2.withMatchers table) := by
  unfold bindTo
  cases m.role with
  | source =>
    dsimp only
    rw [instantiate_withMatchers]
    cases t.instantiate m.group ⟨link.index⟩ link.name <;> rfl
  | destination =>
    have hg : (t.withMatchers table).groupsSharingName m.group = t.groupsSharingName m.group := rfl
    dsimp only
    rw [hg, joinAll_eq, joinAll_eq]
    cases (t.groupsSharingName m.group).isEmpty <;> rfl

end

/-! ## Resolutions -/

theorem resolve_withMatchers (table : MatcherTable) (t : Topology) (m : Matcher) (link : Link) :
    (t.withMatchers table).resolve m link =
      ((t.resolve m link).1, (t.resolve m link).2.withMatchers table) := by
  rw [resolve_eq, resolve_eq, addInterface_withMatchers, bindTo_withMatchers]
  cases (t.addInterface ⟨link.index⟩ link.name).bindTo m link with
  | error e => rfl
  | ok r =>
    obtain ⟨touched, u⟩ := r
    have hg : ((u.associateAll touched).2.withMatchers table).groupsOf ⟨link.index⟩ =
        (u.associateAll touched).2.groupsOf ⟨link.index⟩ := rfl
    dsimp only [Except.map]
    rw [associateAll_withMatchers]
    dsimp only
    rw [hg, removeInterface_withMatchers]
    cases (u.associateAll touched).1 <;>
      cases ((u.associateAll touched).2.groupsOf ⟨link.index⟩).isEmpty <;> rfl

theorem resolve_matchers (t : Topology) (m : Matcher) (link : Link) :
    (t.resolve m link).2.matchers = t.matchers := by
  have hself := resolve_withMatchers t.matchers t m link
  exact congrArg (fun r => r.2.matchers) hself

/-- The same interfaces and groups under the same names; the matchers may differ. -/
structure Alike (t u : Topology) : Prop where
  interfaces : u.interfaces = t.interfaces
  names : u.names = t.names
  groups : u.groups = t.groups
  groupNames : u.groupNames = t.groupNames
  lastGroup : u.lastGroup = t.lastGroup

namespace Alike

theorem withMatchers (t : Topology) (table : MatcherTable) : Alike t (t.withMatchers table) :=
  ⟨rfl, rfl, rfl, rfl, rfl⟩

theorem eq_withMatchers (h : Alike t u) : u = t.withMatchers u.matchers := by
  cases t
  cases u
  obtain ⟨rfl, rfl, rfl, rfl, rfl⟩ := h
  rfl

theorem resolve (h : Alike t u) (m : Matcher) (link : Link) :
    (u.resolve m link).1 = (t.resolve m link).1 ∧
      Alike (t.resolve m link).2 (u.resolve m link).2 := by
  rw [h.eq_withMatchers, resolve_withMatchers]
  exact ⟨rfl, .withMatchers _ _⟩

theorem resolveAll (h : Alike t u) (ms : List Matcher) (link : Link) :
    u.listedAll link ms = t.listedAll link ms ∧
      Alike (t.resolveAll (ms.map (·, link))) (u.resolveAll (ms.map (·, link))) := by
  induction ms generalizing t u with
  | nil => exact ⟨rfl, h⟩
  | cons m ms ih =>
    obtain ⟨hout, hnext⟩ := h.resolve m link
    obtain ⟨hlisted, hrest⟩ := ih hnext
    refine ⟨?_, hrest⟩
    unfold listedAll
    rw [hout, hlisted]

/-- A link that comes up is the same to both if the same matchers accept it. -/
theorem linkUp (h : Alike t u) {link : Link}
    (hm : link.up = true → u.matchers.matching link.name = t.matchers.matching link.name) :
    (u.linkUp link).1 = (t.linkUp link).1 ∧ Alike (t.linkUp link).2 (u.linkUp link).2 := by
  by_cases hu : link.up = true
  · obtain ⟨hlisted, hrest⟩ := h.resolveAll (t.matchers.matching link.name) link
    rw [linkUp_fst u link hu, linkUp_fst t link hu, linkUp_snd u link hu, linkUp_snd t link hu, hm hu,
      hlisted]
    exact ⟨rfl, hrest⟩
  · have hdown : ∀ t : Topology, t.linkUp link = ([], t) := by
      intro t
      unfold Topology.linkUp
      simp [hu]
    rw [hdown, hdown]
    exact ⟨rfl, h⟩

end Alike

theorem resolveAll_matchers (t : Topology) (ps : List (Matcher × Link)) :
    (t.resolveAll ps).matchers = t.matchers := by
  induction ps generalizing t with
  | nil => rfl
  | cons p ps ih => exact (ih _).trans (resolve_matchers t p.1 p.2)

theorem linkUp_matchers (t : Topology) (link : Link) : (t.linkUp link).2.matchers = t.matchers := by
  have hevent := next_linkUp t link
  change (t.next (.linkUp link)).matchers = t.matchers
  rw [hevent]
  exact resolveAll_matchers t _

end Topology
end MulticastRelay
