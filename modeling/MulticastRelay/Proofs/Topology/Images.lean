import MulticastRelay.Proofs.Topology.Bindings

/-! # Images of a template

A link that is bound as source for the first time gets a group of its own, made from the group of the
matcher as that stands at the moment. Only the mode of that group is looked at. It may have a source
of its own by then, and the members that are copied include it: the source of the template becomes a
destination of the image.
-/
namespace MulticastRelay

namespace Group

variable {base g k : Group} {id x : InterfaceId}

theorem mem_destinations : x ∈ g.destinations ↔ x ∈ g.members ∧ some x ≠ g.source := by
  unfold destinations
  rw [List.mem_filter, decide_eq_true_eq]

/-- A push group of one source that has the attributes of a template and sends to its members. -/
structure ImageOf (base : Group) (id : InterfaceId) (k : Group) : Prop where
  mode : k.mode = .push
  isTemplate : k.isTemplate = false
  source : k.source = some id
  relayType : k.relayType = base.relayType
  policy : k.policy = base.policy
  tunnel : k.tunnel = base.tunnel
  resequence : k.resequence = base.resequence
  destinations : k.destinations = base.members.filter (· ≠ id)

theorem instantiate_image (base : Group) (gid : GroupId) (name : String) (id : InterfaceId) :
    base.ImageOf id (base.instantiate gid name id) := by
  refine ⟨rfl, rfl, rfl, rfl, rfl, rfl, rfl, ?_⟩
  have hcopy : (Ascending.insert InterfaceId.before id base.members).filter (· ≠ id) =
      base.members.filter (· ≠ id) :=
    Ascending.filter_insert_of_neg (by simp) base.members
  rw [← hcopy]
  exact List.filter_congr fun x _ => by simp [instantiate]

/-- The source of the template is all that an image may send to and the template does not. -/
theorem ImageOf.destinations_iff (h : base.ImageOf id k)
    (hs : ∀ s, base.source = some s → s ∈ base.members) :
    (∀ x, x ∈ k.destinations ↔ x ∈ base.destinations ∧ x ≠ id) ↔
      ∀ s, base.source = some s → s = id := by
  have hk : ∀ x, x ∈ k.destinations ↔ x ∈ base.members ∧ x ≠ id := by
    intro x
    rw [h.destinations, List.mem_filter, decide_eq_true_eq]
  constructor
  · -- The source is one of the members copied, and no destination of the template.
    intro hsame s hsource
    by_contra hne
    have hcopied : s ∈ k.destinations := (hk s).2 ⟨hs s hsource, hne⟩
    have hdest := ((hsame s).1 hcopied).1
    exact (mem_destinations.1 hdest).2 hsource.symm
  · intro honly x
    rw [hk, mem_destinations]
    constructor
    · rintro ⟨hx, hne⟩
      exact ⟨⟨hx, fun hsource => hne (honly x hsource.symm)⟩, hne⟩
    · rintro ⟨⟨hx, -⟩, hne⟩
      exact ⟨hx, hne⟩

end Group

namespace Topology

variable {t : Topology} {m : Matcher} {link : Link} {base : Group}

/-- The first resolution for a source makes one group and leaves the others as they are, also where
the pass of the new group meets conflicts. -/
theorem Intact.resolve_made (h : Intact t) (hr : m.role = .source)
    (hb : t.groupNamed? m.group = some base) (hm : base.mode = .push)
    (hfree : t.groupNamed? (instanceName m.group link.name) = none) :
    (t.resolve m link).2.groups.Perm
      (base.instantiate ⟨t.lastGroup + 1⟩ (instanceName m.group link.name) ⟨link.index⟩ ::
        t.groups) := by
  have hnamed : ∀ x, (t.addInterface ⟨link.index⟩ link.name).groupNamed? x = t.groupNamed? x :=
    groupNamed?_congr addInterface_groups addInterface_groupNames
  have hbinds := Binds.made hr ((hnamed _).trans hfree) ((hnamed _).trans hb) hm
  have hperm := insertGroup_perm (g := base.instantiate
    ⟨(t.addInterface ⟨link.index⟩ link.name).lastGroup + 1⟩ (instanceName m.group link.name)
    ⟨link.index⟩) (h.addInterface _ _).unissued
  rw [addInterface_groups, addInterface_lastGroup] at hperm
  rw [h.resolve_of_binds hbinds]
  dsimp only
  rw [associateAll_groups, addInterface_lastGroup]
  exact hperm

/-- A link bound to a push group as source gets a group of its own, unless one of that name is there.
The attributes of the new group are the template's, and it sends to all members of the template but
the link. These are the destinations of the template exactly if that has no source of its own other
than the link. -/
theorem made_image_iff (h : Reachable t) (m : Matcher) (link : Link) (hr : m.role = .source)
    (hb : t.groupNamed? m.group = some base) (hm : base.mode = .push)
    (hfree : t.groupNamed? (instanceName m.group link.name) = none) :
    ∃ k, (t.resolve m link).2.groupNamed? (instanceName m.group link.name) = some k ∧
      (t.resolve m link).2.groups.Perm (k :: t.groups) ∧ base.ImageOf ⟨link.index⟩ k ∧
      ((∀ x, x ∈ k.destinations ↔ x ∈ base.destinations ∧ x ≠ ⟨link.index⟩) ↔
        ∀ s, base.source = some s → s = ⟨link.index⟩) := by
  have hmade := h.intact.resolve_made hr hb hm hfree
  have himage := base.instantiate_image ⟨t.lastGroup + 1⟩ (instanceName m.group link.name)
    ⟨link.index⟩
  have hfound := (h.intact.resolve m link).groupNamed?_eq.2
    ⟨hmade.mem_iff.2 List.mem_cons_self, rfl⟩
  have hmember := (h.intact.peopled base (h.intact.groupNamed?_eq.1 hb).1).sourced
  exact ⟨_, hfound, hmade, himage, himage.destinations_iff hmember⟩

/-- A template that was given a source of its own. -/
def sourcedTemplate : List Event :=
  [.addGroup "ppp" .push .classicalFlooding, .addMatcher ⟨1⟩ "ppp" .source,
    .addInterface ⟨1⟩ "wlan0", .addMember ⟨1⟩ ⟨1⟩ .source]

/-- The image sends to the source of the template. -/
theorem sourcedTemplate_sends_to_source :
    ∃ base k, (after sourcedTemplate).groupNamed? "ppp" = some base ∧
      ((after sourcedTemplate).resolve ⟨"ppp", "ppp", .source, .push, .classicalFlooding⟩
        ⟨"ppp0", 10, true⟩).2.groupNamed? "ppp:ppp0" = some k ∧
      ¬∀ x, x ∈ k.destinations ↔ x ∈ base.destinations ∧ x ≠ ⟨10⟩ := by
  have hbase : (after sourcedTemplate).groupNamed? "ppp" =
      some ⟨⟨1⟩, "ppp", .push, .classicalFlooding, {}, false, false, false, some ⟨1⟩, [⟨1⟩], none⟩ := by
    decide +kernel
  obtain ⟨k, hk, -, -, hiff⟩ := made_image_iff (after_reachable sourcedTemplate)
    ⟨"ppp", "ppp", .source, .push, .classicalFlooding⟩ ⟨"ppp0", 10, true⟩ rfl hbase rfl
    (by decide +kernel)
  refine ⟨_, k, hbase, hk, ?_⟩
  intro hsame
  cases hiff.1 hsame ⟨1⟩ rfl

end Topology
end MulticastRelay
