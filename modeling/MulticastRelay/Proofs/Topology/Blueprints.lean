import MulticastRelay.Proofs.Topology.Roles

/-! # Edges of templates

A template calls for no edges, so no pass makes one for it and a resolution makes them for other
groups only. Edges that a template owns are left from its time as a group of one source: becoming a
template takes the source from a group and leaves it the edges.
-/
namespace MulticastRelay.Topology

variable {t u : Topology} {g k : Group} {e : Event} {id x y : InterfaceId} {gid o : GroupId}
  {m : Matcher} {link : Link} {touched : List GroupId} {ps : List (Matcher × Link)}

/-- Some interface holds an edge of a group. -/
def Owns (t : Topology) (gid : GroupId) : Prop :=
  ∃ i ∈ t.interfaces, ∃ a ∈ i.associates, a.owner = gid

theorem Intact.owns_iff (h : Intact t) : t.Owns gid ↔ ∃ x y, t.owner? x y = some gid := by
  constructor
  · rintro ⟨i, hi, a, ha, rfl⟩
    exact ⟨i.id, a.target, h.owner?_eq.2 ⟨i, hi, rfl, ha⟩⟩
  · rintro ⟨x, y, ho⟩
    obtain ⟨i, hi, -, ha⟩ := h.owner?_eq.1 ho
    exact ⟨i, hi, _, ha, rfl⟩

/-! ## Whose edges are made -/

/-- An edge was there before with the same owner, or its owner is no template. -/
def Spares (t u : Topology) : Prop :=
  ∀ x y o, u.owner? x y = some o →
    t.owner? x y = some o ∨ ∃ g ∈ u.groups, g.id = o ∧ g.isTemplate = false

theorem spares_of_owner? (h : ∀ x y o, u.owner? x y = some o → t.owner? x y = some o) : Spares t u :=
  fun x y o ho => .inl (h x y o ho)

theorem spares_of_interfaces (h : u.interfaces = t.interfaces) : Spares t u := by
  refine spares_of_owner? fun x y o ho => ?_
  unfold owner? interface? at ho ⊢
  rwa [h] at ho

/-- What an interface carries apart from its edges has no part in them. -/
theorem spares_of_dress {f : Interface → Interface}
    (hf : ∀ i, (f i).id = i.id ∧ (f i).associates = i.associates) :
    Spares t (t.modifyInterface id f) := by
  refine spares_of_owner? fun x y o ho => ?_
  unfold owner? at ho ⊢
  rw [interface?_modifyInterface fun i hi => (hf i).1.trans hi] at ho
  split at ho
  · rename_i hx
    subst hx
    cases hi : t.interface? x with
    | none =>
      rw [hi] at ho
      exact ho
    | some i =>
      rw [hi] at ho
      change (f i).owner? y = some o at ho
      unfold Interface.owner? Interface.associate? at ho
      rwa [(hf i).2] at ho
  · exact ho

/-- Later steps may add what groups that are no templates call for. -/
theorem Spares.trans {v : Topology} (h : Spares t u) (hv : Spares u v)
    (hk : ∀ g ∈ u.groups, g.isTemplate = false → ∃ k ∈ v.groups, k.id = g.id ∧ k.isTemplate = false) :
    Spares t v := by
  intro x y o ho
  rcases hv x y o ho with hu | hnew
  · rcases h x y o hu with ht | ⟨g, hg, rfl, hgt⟩
    · exact .inl ht
    · exact .inr (hk g hg hgt)
  · exact .inr hnew

/-- A pass makes no edge for a template. -/
theorem Intact.associate_spares (h : Intact t) (hp : TemplatesPush t) (gid : GroupId) :
    Spares t (t.associate gid).2 := by
  cases hg : t.group? gid with
  | none =>
    unfold Topology.associate
    rw [hg]
    exact spares_of_interfaces rfl
  | some g =>
    obtain ⟨hm, rfl⟩ := h.group?_eq.1 hg
    intro x y o ho
    rw [h.owner?_associate hg] at ho
    split at ho
    · rename_i hnew
      cases ho
      right
      refine ⟨g, ?_, rfl, ?_⟩
      · rw [associate_groups]
        exact hm
      · by_contra hgt
        have hpush := hp g hm (by simpa using hgt)
        have hsend : g.Sends x := (Group.mem_edges.1 hnew.2).1
        unfold Group.Sends at hsend
        rw [if_pos hpush] at hsend
        exact hgt hsend.1
    · exact .inl ho

theorem Intact.associateAll_spares (h : Intact t) (hp : TemplatesPush t) (gids : List GroupId) :
    Spares t (t.associateAll gids).2 := by
  rw [associateAll_snd]
  induction gids generalizing t with
  | nil => exact spares_of_interfaces rfl
  | cons gid gids ih =>
    have hgroups := associate_groups t gid
    have hrest := ih (h.associate gid) (fun g hg => hp g (hgroups ▸ hg))
    refine (h.associate_spares hp gid).trans hrest fun g hg ht => ⟨g, ?_, rfl, ht⟩
    rw [← associateAll_snd, associateAll_groups]
    exact hgroups ▸ hg

theorem Rebound.templatesPush (h : Rebound ps t u) (hp : TemplatesPush t) : TemplatesPush u := by
  intro k hk ht
  rcases h.known k hk with ⟨g, hg, hgk⟩ | ⟨hm, -⟩
  · exact hgk.mode.trans (hp g hg (hgk.isTemplate.symm.trans ht))
  · exact hm

theorem Rebound.single (h : Rebound ps t u) :
    ∀ g ∈ t.groups, g.isTemplate = false → ∃ k ∈ u.groups, k.id = g.id ∧ k.isTemplate = false := by
  intro g hg ht
  obtain ⟨k, hk, hgk⟩ := h.kept g hg
  exact ⟨k, hk, hgk.id, hgk.isTemplate.trans ht⟩

theorem Intact.addInterface_spares (h : Intact t) (id : InterfaceId) (name : String) :
    Spares t (t.addInterface id name) := by
  refine spares_of_owner? fun x y o ho => ?_
  rwa [h.owner?_addInterface] at ho

theorem Intact.resolve_spares (h : Intact t) (hp : TemplatesPush t) (m : Matcher) (link : Link) :
    Spares t (t.resolve m link).2 := by
  have ha := h.addInterface ⟨link.index⟩ link.name
  have hfirst := h.addInterface_spares ⟨link.index⟩ link.name
  have hpa : TemplatesPush (t.addInterface ⟨link.index⟩ link.name) := by
    unfold TemplatesPush
    rw [addInterface_groups]
    exact hp
  rcases h.resolve_cases m link with ⟨-, e, he⟩ | ⟨touched, u, hb, he⟩
  · rw [he]
    exact hfirst
  · rw [he]
    have hr := hb.rebound ha
    have hbound : Spares (t.addInterface ⟨link.index⟩ link.name) u :=
      spares_of_interfaces hb.interfaces
    have hpass := (hb.intact ha (h.addInterface_has _ _)).associateAll_spares (hr.templatesPush hpa)
      touched
    refine (hfirst.trans hbound hr.single).trans hpass fun g hg ht => ⟨g, ?_, rfl, ht⟩
    rw [associateAll_groups]
    exact hg

theorem Intact.resolveAll_spares (h : Intact t) (hp : TemplatesPush t)
    (ps : List (Matcher × Link)) : Spares t (t.resolveAll ps) := by
  induction ps generalizing t with
  | nil => exact spares_of_interfaces rfl
  | cons p ps ih =>
    have hu := h.resolve p.1 p.2
    have hpu := (h.resolve_rebound p.1 p.2).templatesPush hp
    exact (h.resolve_spares hp p.1 p.2).trans (ih hu hpu) (hu.resolveAll_rebound ps).single

theorem Intact.removeInterface_spares (h : Intact t) (id : InterfaceId) :
    Spares t (t.removeInterface id) := by
  cases hi : t.interface? id with
  | none =>
    rw [removeInterface_of_none hi]
    exact spares_of_interfaces rfl
  | some i => exact spares_of_owner? fun x y o ho => ((h.owner?_removeInterface hi).1 ho).1

theorem Intact.removeMember_spares (h : Intact t) {r : Bool × Topology}
    (hr : t.removeMember gid id = .ok r) : Spares t r.2 := by
  have hm : Intact (t.modifyGroup gid (·.removeMember id)) := h.modifyGroup fun k hk =>
    ⟨rfl, rfl, (h.peopled k (h.group?_eq.1 hk).1).removeMember id⟩
  unfold Topology.removeMember at hr
  split at hr
  · cases hr
  · split at hr
    · cases hr
    · dsimp only at hr
      split at hr
      · cases hr
        exact hm.removeInterface_spares id
      · cases hr
        exact spares_of_interfaces rfl

/-- No event makes an edge for a template. -/
theorem Intact.next_spares (h : Intact t) (hp : TemplatesPush t) (e : Event) :
    Spares t (t.next e) := by
  cases e with
  | addInterface id name => exact h.addInterface_spares id name
  | removeInterface id => exact h.removeInterface_spares id
  | addAddress id address =>
    refine spares_of_dress fun i => ?_
    unfold Interface.addAddress
    split <;> exact ⟨rfl, rfl⟩
  | setNetworkAddress id address => exact spares_of_dress fun _ => ⟨rfl, rfl⟩
  | modifyFlags id change => exact spares_of_dress fun _ => ⟨rfl, rfl⟩
  | setBinding id binding => exact spares_of_dress fun _ => ⟨rfl, rfl⟩
  | addGroup name mode relay => exact spares_of_interfaces (addGroup_interfaces t name mode relay)
  | setGroupPolicy gid policy tunnel resequence => exact spares_of_interfaces rfl
  | removeGroup gid =>
    change Spares t (t.orSame ((t.removeGroup gid).map (·.2)))
    cases hg : t.group? gid with
    | none =>
      unfold Topology.removeGroup
      rw [hg]
      exact spares_of_interfaces rfl
    | some g =>
      obtain ⟨gone, u, hu, -, -, -, howner⟩ := h.removeGroup_spec hg
      rw [hu]
      exact spares_of_owner? fun x y o ho => ((howner x y o).1 ho).1
  | addMember gid id role =>
    change Spares t (t.orSame (t.addMember gid id role))
    cases hu : t.addMember gid id role with
    | error _ => exact spares_of_interfaces rfl
    | ok u => exact spares_of_interfaces (addMember_interfaces hu)
  | removeMember gid id =>
    change Spares t (t.orSame ((t.removeMember gid id).map (·.2)))
    cases hr : t.removeMember gid id with
    | error _ => exact spares_of_interfaces rfl
    | ok r => exact h.removeMember_spares hr
  | associate gid => exact h.associate_spares hp gid
  | addMatcher gid stem role =>
    change Spares t (t.orSame ((t.addMatcher gid stem role).map (·.2)))
    cases hr : t.addMatcher gid stem role with
    | error _ => exact spares_of_interfaces rfl
    | ok r => exact spares_of_interfaces (addMatcher_interfaces hr)
  | matchLinks m links =>
    rw [next_matchLinks]
    exact h.resolveAll_spares hp _
  | linkUp link =>
    rw [next_linkUp]
    exact h.resolveAll_spares hp _

/-! ## Templates with edges -/

/-- No interface holds an edge of a template. -/
def TemplatesBare (t : Topology) : Prop :=
  ∀ i ∈ t.interfaces, ∀ a ∈ i.associates, ∀ g ∈ t.groups, g.id = a.owner → g.isTemplate = false

/-- A push group with edges of its own becomes a template. -/
def Converts (t : Topology) (e : Event) : Prop :=
  ∃ g ∈ t.groups, g.mode = .push ∧ t.Owns g.id ∧ ∃ stem, e = .addMatcher g.id stem .source

theorem templatesBare_iff :
    TemplatesBare t ↔ ∀ g ∈ t.groups, g.isTemplate = true → ¬t.Owns g.id := by
  constructor
  · rintro hb g hg ht ⟨i, hi, a, ha, ho⟩
    rw [hb i hi a ha g hg ho.symm] at ht
    cases ht
  · intro hb i hi a ha g hg ho
    by_contra ht
    exact hb g hg (by simpa using ht) ⟨i, hi, a, ha, ho.symm⟩

theorem Turns.handle (h : Turns t g e k) : k.id = g.id := by
  cases h with
  | reconfigured mode relay =>
    unfold Group.setMode
    split <;> rfl
  | bound hp => exact hp.id
  | _ => rfl

/-- A template was one before, or it is what a source matcher was just added to. -/
theorem Turns.template_cases (h : Turns t g e k) (hk : k.isTemplate = true) :
    g.isTemplate = true ∨ g.mode = .push ∧ ∃ stem, e = .addMatcher g.id stem .source := by
  cases h with
  | same | policy | joined | left => exact .inl hk
  | reconfigured mode relay =>
    left
    unfold Group.setMode at hk
    by_cases hm : mode = .push
    · rw [if_pos hm] at hk
      exact hk
    · rw [if_neg hm] at hk
      cases hk
  | sourced id hm => cases hk
  | template stem hm => exact .inr ⟨hm, stem, rfl⟩
  | bound hp => exact .inl (hp.isTemplate.symm.trans hk)

/-- What a template owns it owned before. -/
theorem Reachable.owner?_of_template (h : Reachable t) (e : Event) (hk : k ∈ (t.next e).groups)
    (ht : k.isTemplate = true) (ho : (t.next e).owner? x y = some k.id) :
    t.owner? x y = some k.id := by
  rcases h.intact.next_spares h.templatesPush e x y k.id ho with hold | ⟨g, hg, hid, hgt⟩
  · exact hold
  · rw [(h.next e).intact.group_eq hg hk hid, ht] at hgt
    cases hgt

theorem Intact.addMatcher_converts (h : Intact t) (hg : g ∈ t.groups) (hm : g.mode = .push)
    (stem : String) :
    g.makeTemplate ∈ (t.next (.addMatcher g.id stem .source)).groups ∧
      (t.next (.addMatcher g.id stem .source)).interfaces = t.interfaces := by
  change g.makeTemplate ∈ (t.orSame ((t.addMatcher g.id stem .source).map (·.2))).groups ∧
    (t.orSame ((t.addMatcher g.id stem .source).map (·.2))).interfaces = t.interfaces
  unfold Topology.addMatcher
  rw [h.group?_eq.2 ⟨hg, rfl⟩]
  dsimp only
  rw [if_pos ⟨rfl, hm⟩]
  exact ⟨Keyed.mem_modify.2 ⟨g, hg, (if_pos rfl).symm⟩, rfl⟩

/-- The only way to a template with edges. -/
theorem Reachable.next_templatesBare (h : Reachable t) (hb : TemplatesBare t) (e : Event) :
    TemplatesBare (t.next e) ↔ ¬Converts t e := by
  have hi := h.intact
  rw [templatesBare_iff] at hb ⊢
  constructor
  · rintro hu ⟨g, hg, hm, ⟨i, him, a, ha, ho⟩, stem, rfl⟩
    obtain ⟨hk, hsame⟩ := hi.addMatcher_converts hg hm stem
    exact hu _ hk rfl ⟨i, hsame ▸ him, a, ha, ho⟩
  · intro hno k hk ht howns
    obtain ⟨x, y, ho⟩ := (h.next e).intact.owns_iff.1 howns
    have hold := h.owner?_of_template e hk ht ho
    rcases hi.next_descends e k hk with ⟨g, hg, hturn⟩ | ⟨hnew, -⟩
    · have hown : t.Owns g.id := hi.owns_iff.2 ⟨x, y, hturn.handle ▸ hold⟩
      rcases hturn.template_cases ht with hgt | ⟨hm, stem, he⟩
      · exact hb g hg hgt hown
      · exact hno ⟨g, hg, hm, hown, stem, he⟩
    · rw [hnew] at ht
      cases ht

/-- Templates own no edges exactly as long as no group with edges is made one by a source matcher. The
edges that it brings are all that a template ever owns: an event gives it none. -/
theorem templates_bare_iff (es : List Event) :
    (∀ past e, past ++ [e] <+: es → ∀ g ∈ (after (past ++ [e])).groups, g.isTemplate = true →
      ∀ x y, (after (past ++ [e])).owner? x y = some g.id → (after past).owner? x y = some g.id) ∧
    (Throughout TemplatesBare es ↔ ∀ past e, past ++ [e] <+: es → ¬Converts (after past) e) := by
  constructor
  · intro past e _ g hg ht x y ho
    rw [after_concat] at hg ho
    exact (after_reachable past).owner?_of_template e hg ht ho
  · have hempty : TemplatesBare empty := fun i hi => absurd hi List.not_mem_nil
    apply throughout_iff hempty
    intro t e _ h hb
    exact h.next_templatesBare hb e

/-- A group relays from one interface to another. -/
def oneToOne : List Event :=
  [.addInterface ⟨1⟩ "a", .addInterface ⟨2⟩ "b", .addGroup "g" .push .classicalFlooding,
    .addMember ⟨1⟩ ⟨1⟩ .source, .addMember ⟨1⟩ ⟨2⟩ .destination, .associate ⟨1⟩]

/-- It keeps its edge as a template. -/
theorem oneToOne_converts :
    ¬Throughout TemplatesBare (oneToOne ++ [.addMatcher ⟨1⟩ "ppp" .source]) := by
  intro hall
  refine (templates_bare_iff _).2.1 hall oneToOne (.addMatcher ⟨1⟩ "ppp" .source)
    (List.prefix_refl _) ?_
  refine ⟨⟨⟨1⟩, "g", .push, .classicalFlooding, {}, false, false, false, some ⟨1⟩, [⟨1⟩, ⟨2⟩], none⟩,
    by decide +kernel, rfl, ?_, "ppp", rfl⟩
  exact (after_reachable oneToOne).intact.owns_iff.2 ⟨⟨1⟩, ⟨2⟩, by decide +kernel⟩

end MulticastRelay.Topology
