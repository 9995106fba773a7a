import MulticastRelay.Proofs.Topology.Naming

/-! # Lifetimes of interfaces

An interface goes with its last group: a member taken out and a group removed take along whoever they
leave in no group. An interface that is removed drops the groups made for it and looks at none of
their other members, so that one which was in no other group is stranded: it stays, in no group.
-/
namespace MulticastRelay.Topology

variable {t u : Topology} {id a s : InterfaceId} {gid : GroupId} {g : Group} {e : Event}

/-- The interface is in some group. -/
def Belongs (t : Topology) (id : InterfaceId) : Prop := ∃ g ∈ t.groups, id ∈ g.members

/-- An interface lost its last group and is there still. -/
structure Stranded (t u : Topology) (id : InterfaceId) : Prop where
  before : t.Belongs id
  after : ¬u.Belongs id
  there : u.Has id

/-- A request to take an interface out of a group, or out of all of them. -/
def Event.isRemoval : Event → Bool
  | .removeMember .. | .removeGroup _ | .removeInterface _ => true
  | _ => false

theorem Intact.belongs_has (h : Intact t) (hb : t.Belongs id) : t.Has id := by
  obtain ⟨g, hg, hm⟩ := hb
  exact (h.peopled g hg).present id hm

theorem not_stranded_self (t : Topology) (id : InterfaceId) : ¬Stranded t t id :=
  fun hs => hs.after hs.before

theorem groupsOf_isEmpty_iff_belongs : (t.groupsOf id).isEmpty = true ↔ ¬t.Belongs id := by
  rw [groupsOf_isEmpty_iff]
  unfold Belongs
  simp only [not_exists, not_and]

/-! ## Members -/

/-- Only the member taken out may lose a group. -/
theorem Belongs.removeMember (hb : t.Belongs a) (hne : a ≠ id) :
    (t.modifyGroup gid (·.removeMember id)).Belongs a := by
  obtain ⟨g, hg, hm⟩ := hb
  refine ⟨_, Keyed.mem_modify.2 ⟨g, hg, rfl⟩, ?_⟩
  split
  · exact List.mem_filter.2 ⟨hm, decide_eq_true hne⟩
  · exact hm

theorem Intact.removeMember_strands_none (h : Intact t) {r : Bool × Topology}
    (hr : t.removeMember gid id = .ok r) : ¬Stranded t r.2 a := by
  rintro ⟨hbefore, hafter, hthere⟩
  have hm : Intact (t.modifyGroup gid (·.removeMember id)) := h.modifyGroup fun k hk =>
    ⟨rfl, rfl, (h.peopled k (h.group?_eq.1 hk).1).removeMember id⟩
  unfold Topology.removeMember at hr
  split at hr
  · cases hr
  · split at hr
    · cases hr
    · dsimp only at hr
      split at hr
      · rename_i he
        cases hr
        have hne : a ≠ id := (removeInterface_has_iff.1 hthere).1
        -- the member was an orphan by then, so that no group goes with it
        have hgroups : ((t.modifyGroup gid (·.removeMember id)).removeInterface id).groups =
            (t.modifyGroup gid (·.removeMember id)).groups := by
          cases hi : (t.modifyGroup gid (·.removeMember id)).interface? id with
          | none => rw [removeInterface_of_none hi]
          | some i => exact (hm.removeInterface_orphan hi (groupsOf_isEmpty_iff.1 he)).2
        unfold Belongs at hafter
        rw [hgroups] at hafter
        exact hafter (hbefore.removeMember hne)
      · rename_i he
        cases hr
        rw [groupsOf_isEmpty_iff_belongs, not_not] at he
        have hne : a ≠ id := fun heq => hafter (heq ▸ he)
        exact hafter (hbefore.removeMember hne)

/-! ## Groups -/

/-- Exactly the interfaces of the list that are in no group are destroyed. -/
theorem Intact.removeOrphans_has (h : Intact t) (ids : List InterfaceId) :
    (t.removeOrphans ids).2.Has a ↔ t.Has a ∧ ¬(a ∈ ids ∧ ¬t.Belongs a) := by
  induction ids generalizing t with
  | nil => simp [Topology.removeOrphans]
  | cons id ids ih =>
    unfold Topology.removeOrphans removeIfOrphan
    rw [List.mem_cons]
    by_cases hcond : ((t.groupsOf id).isEmpty && (t.interface? id).isSome) = true
    · rw [if_pos hcond]
      obtain ⟨he, hs⟩ := Bool.and_eq_true_iff.1 hcond
      obtain ⟨i, hi⟩ := Option.isSome_iff_exists.1 hs
      have hb : (t.removeInterface id).Belongs a ↔ t.Belongs a := by
        unfold Belongs
        rw [(h.removeInterface_orphan hi (groupsOf_isEmpty_iff.1 he)).2]
      have horphan := groupsOf_isEmpty_iff_belongs.1 he
      dsimp only
      rw [ih (h.removeInterface id), removeInterface_has_iff, hb]
      by_cases ha : a = id
      · simp [ha, horphan]
      · simp [ha]
    · rw [if_neg hcond]
      dsimp only
      rw [ih h]
      by_cases ha : a = id
      · subst ha
        rw [Bool.and_eq_true, groupsOf_isEmpty_iff_belongs, Option.isSome_iff_exists, ← has_iff] at hcond
        tauto
      · simp [ha]

theorem Intact.removeGroup_strands_none (h : Intact t) {r : List InterfaceId × Topology}
    (hr : t.removeGroup gid = .ok r) : ¬Stranded t r.2 a := by
  rintro ⟨⟨k, hk, hak⟩, hafter, hthere⟩
  unfold Topology.removeGroup at hr
  split at hr
  · cases hr
  · rename_i g hg
    cases hr
    have hd : Intact ({ t with matchers := t.matchers.removeGroup g.name }.dropGroup gid) :=
      (h.matchers (h.filed.removeGroup g.name)).dropGroup gid
    have hgroups := (hd.removeOrphans_spec g.members).1
    unfold Belongs at hafter
    rw [hgroups] at hafter
    have hkept : k.id = gid := by
      by_contra hne
      exact hafter ⟨k, mem_groups_dropGroup.2 ⟨hk, hne⟩, hak⟩
    obtain ⟨hgm, hgid⟩ := h.group?_eq.1 hg
    have hkg : k = g := h.group_eq hk hgm (hkept.trans hgid.symm)
    exact ((hd.removeOrphans_has g.members).1 hthere).2 ⟨hkg ▸ hak, hafter⟩

/-! ## Interfaces -/

theorem Intact.mem_derived_iff (h : Intact t) (hg : g ∈ t.groups) :
    g.id ∈ t.derivedGroups s ↔ g.derivedFrom.isSome = true ∧ g.source = some s := by
  unfold derivedGroups
  simp only [List.mem_map, List.mem_filter, Bool.and_eq_true, beq_iff_eq]
  constructor
  · rintro ⟨k, ⟨hk, hd, hs⟩, he⟩
    cases h.group_eq hk hg he
    exact ⟨hd, hs⟩
  · exact fun hd => ⟨g, ⟨hg, hd⟩, rfl⟩

/-- The removal of an interface strands those that were in groups made for it and in no others. -/
theorem Intact.removeInterface_strands_iff (h : Intact t) :
    Stranded t (t.removeInterface s) a ↔ a ≠ s ∧ t.Belongs a ∧
      ∀ g ∈ t.groups, a ∈ g.members → g.derivedFrom.isSome = true ∧ g.source = some s := by
  cases hi : t.interface? s with
  | none =>
    rw [removeInterface_of_none hi]
    constructor
    · exact fun hs => absurd hs (not_stranded_self t a)
    · rintro ⟨-, ⟨g, hg, hm⟩, hall⟩
      have hs : t.Has s := (h.peopled g hg).present s ((h.peopled g hg).sourced s (hall g hg hm).2)
      obtain ⟨i, hs⟩ := has_iff.1 hs
      rw [hi] at hs
      cases hs
  | some i =>
    constructor
    · rintro ⟨hbefore, hafter, hthere⟩
      have hne : a ≠ s := (removeInterface_has_iff.1 hthere).1
      refine ⟨hne, hbefore, fun g hg hm => ?_⟩
      rw [← h.mem_derived_iff hg]
      by_contra hn
      refine hafter ⟨g.removeMember s, (mem_groups_removeInterface hi).2 ⟨g, hg, hn, rfl⟩, ?_⟩
      exact List.mem_filter.2 ⟨hm, decide_eq_true hne⟩
    · rintro ⟨hne, hb, hall⟩
      refine ⟨hb, ?_, removeInterface_has_iff.2 ⟨hne, h.belongs_has hb⟩⟩
      rintro ⟨k, hk, hm⟩
      obtain ⟨g, hg, hn, rfl⟩ := (mem_groups_removeInterface hi).1 hk
      exact hn ((h.mem_derived_iff hg).2 (hall g hg (List.mem_filter.1 hm).1))

/-- An interface outlives its last group exactly if another one is removed for which all the groups of
the first were made. -/
theorem strands_iff (h : Reachable t) (he : e.isRemoval = true) :
    Stranded t (t.next e) a ↔ ∃ s, e = .removeInterface s ∧ a ≠ s ∧ t.Belongs a ∧
      ∀ g ∈ t.groups, a ∈ g.members → g.derivedFrom.isSome = true ∧ g.source = some s := by
  have hi := h.intact
  cases e with
  | removeInterface s =>
    rw [show t.next (.removeInterface s) = t.removeInterface s from rfl, hi.removeInterface_strands_iff]
    constructor
    · exact fun hs => ⟨s, rfl, hs⟩
    · rintro ⟨s, hs, hr⟩
      cases hs
      exact hr
  | removeGroup gid =>
    constructor
    · intro hs
      change Stranded t (t.orSame ((t.removeGroup gid).map (·.2))) a at hs
      cases hr : t.removeGroup gid with
      | error x =>
        rw [hr] at hs
        exact absurd hs (not_stranded_self t a)
      | ok r =>
        rw [hr] at hs
        exact absurd hs (hi.removeGroup_strands_none hr)
    · rintro ⟨s, hs, -⟩
      cases hs
  | removeMember gid id =>
    constructor
    · intro hs
      change Stranded t (t.orSame ((t.removeMember gid id).map (·.2))) a at hs
      cases hr : t.removeMember gid id with
      | error x =>
        rw [hr] at hs
        exact absurd hs (not_stranded_self t a)
      | ok r =>
        rw [hr] at hs
        exact absurd hs (hi.removeMember_strands_none hr)
    · rintro ⟨s, hs, -⟩
      cases hs
  | _ => cases he

/-- A link that took a member of a template into its group, and the member leaves the template. -/
def lastPartner : Topology :=
  [.addGroup "ppp" .push .classicalFlooding, .addMatcher ⟨1⟩ "ppp" .source,
    .addInterface ⟨1⟩ "wlan0", .addMember ⟨1⟩ ⟨1⟩ .destination, .linkUp ⟨"ppp0", 10, true⟩,
    .removeMember ⟨1⟩ ⟨1⟩].foldl next empty

/-- The member is stranded when the link goes. -/
theorem lastPartner_strands : Stranded lastPartner (lastPartner.next (.removeInterface ⟨10⟩)) ⟨1⟩ := by
  refine (strands_iff (reachable_foldl .empty _) rfl).2 ⟨⟨10⟩, rfl, by decide, ?_, ?_⟩
  · have hg : ∃ g ∈ lastPartner.groups, (⟨1⟩ : InterfaceId) ∈ g.members := by decide +kernel
    exact hg
  · decide +kernel

end MulticastRelay.Topology
