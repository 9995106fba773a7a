import MulticastRelay.Proofs.Topology.Bindings

/-! # Templates and sources

A template is a push group in every topology. A group with a source is a push group that is no
template, and every request keeps it so but for one: a link bound as source takes over the group that
has the name of its instance as it finds it, be that a mesh or a template.
-/
namespace MulticastRelay

/-- A group that may have a source of its own. -/
def Group.Sourceable (g : Group) : Prop := g.mode = .push ∧ g.isTemplate = false

namespace Topology

variable {t u : Topology} {g k : Group} {e : Event} {id : InterfaceId} {gid : GroupId}

/-! ## What an event makes of a group -/

/-- A group before and after an event. -/
inductive Turns (t : Topology) (g : Group) : Event → Group → Prop where
  | same (e : Event) : Turns t g e g
  | reconfigured (mode : Mode) (relay : RelayType) :
      Turns t g (.addGroup g.name mode relay) { g.setMode mode with relayType := relay }
  | policy (policy : GroupPolicy) (tunnel resequence : Bool) :
      Turns t g (.setGroupPolicy g.id policy tunnel resequence) { g with policy, tunnel, resequence }
  | joined (id : InterfaceId) (role : Role) : Turns t g (.addMember g.id id role) (g.insertMember id)
  | sourced (id : InterfaceId) : g.mode = .push →
      Turns t g (.addMember g.id id .source) ((g.insertMember id).setSource id)
  | left (e : Event) (id : InterfaceId) : Turns t g e (g.removeMember id)
  | template (stem : String) : g.mode = .push →
      Turns t g (.addMatcher g.id stem .source) g.makeTemplate
  | bound {e : Event} {k : Group} : Persists (t.bindings e) g k → Turns t g e k

/-- Every group comes from one there was, or it is new and no template, with a source only in a push
group. -/
def Descends (t : Topology) (e : Event) (u : Topology) : Prop :=
  ∀ k ∈ u.groups,
    (∃ g ∈ t.groups, Turns t g e k) ∨ k.isTemplate = false ∧ (k.source ≠ none → k.mode = .push)

theorem descends_of_subset (h : ∀ k ∈ u.groups, k ∈ t.groups) : Descends t e u :=
  fun k hk => .inl ⟨k, h k hk, .same e⟩

theorem descends_self (t : Topology) (e : Event) : Descends t e t := descends_of_subset fun _ hk => hk

/-- Only the group of a handle is changed. -/
theorem forall_modifyGroup {f : Group → Group} {P : Group → Prop}
    (hf : ∀ g ∈ t.groups, g.id = gid → P (f g)) (hs : ∀ g ∈ t.groups, P g) :
    ∀ k ∈ (t.modifyGroup gid f).groups, P k := by
  intro k hk
  obtain ⟨g, hg, rfl⟩ := Keyed.mem_modify.1 hk
  by_cases hid : g.id = gid
  · rw [if_pos hid]
    exact hf g hg hid
  · rw [if_neg hid]
    exact hs g hg

theorem groups_removeInterface (hk : k ∈ (t.removeInterface id).groups) :
    k ∈ t.groups ∨ ∃ g ∈ t.groups, k = g.removeMember id := by
  cases hi : t.interface? id with
  | none =>
    rw [removeInterface_of_none hi] at hk
    exact .inl hk
  | some i =>
    obtain ⟨g, hg, -, rfl⟩ := (mem_groups_removeInterface hi).1 hk
    exact .inr ⟨g, hg, rfl⟩

/-- An interface that leaves its last group is an orphan when it is removed. -/
theorem Intact.groups_removeMember (h : Intact t) {r : Bool × Topology}
    (hr : t.removeMember gid id = .ok r) (hk : k ∈ r.2.groups) :
    ∃ g ∈ t.groups, k = g ∨ k = g.removeMember id := by
  have hmod : ∀ k ∈ (t.modifyGroup gid (·.removeMember id)).groups,
      ∃ g ∈ t.groups, k = g ∨ k = g.removeMember id :=
    forall_modifyGroup (fun g hg _ => ⟨g, hg, .inr rfl⟩) fun g hg => ⟨g, hg, .inl rfl⟩
  have hm : Intact (t.modifyGroup gid (·.removeMember id)) := h.modifyGroup fun k hk =>
    ⟨rfl, rfl, (h.peopled k (h.group?_eq.1 hk).1).removeMember id⟩
  unfold Topology.removeMember at hr
  split at hr
  · cases hr
  · split at hr
    · cases hr
    · dsimp only at hr
      split at hr
      · rename_i ho
        cases hr
        refine hmod k ?_
        cases hi : (t.modifyGroup gid (·.removeMember id)).interface? id with
        | none =>
          rw [removeInterface_of_none hi] at hk
          exact hk
        | some i =>
          rw [(hm.removeInterface_orphan hi (groupsOf_isEmpty_iff.1 ho)).2] at hk
          exact hk
      · cases hr
        exact hmod k hk

theorem Intact.addGroup_descends (h : Intact t) (name : String) (mode : Mode) (relay : RelayType) :
    Descends t (.addGroup name mode relay) (t.addGroup name mode relay).2 := by
  unfold Topology.addGroup
  cases hg : t.groupNamed? name with
  | none =>
    intro k hk
    rcases (mem_insertGroup h.unissued).1 hk with rfl | hk
    · exact .inr ⟨rfl, fun hs => absurd rfl hs⟩
    · exact descends_self t _ k hk
  | some b =>
    obtain ⟨hb, rfl⟩ := h.groupNamed?_eq.1 hg
    dsimp only
    split
    · exact descends_self t _
    · refine forall_modifyGroup (fun g hg hid => ?_) (descends_self t _)
      cases h.group_eq hg hb hid
      exact .inl ⟨b, hb, .reconfigured mode relay⟩

theorem addMember_descends (t : Topology) (gid : GroupId) (id : InterfaceId) (role : Role) :
    Descends t (.addMember gid id role) (t.orSame (t.addMember gid id role)) := by
  unfold addMember
  split
  · exact descends_self t _
  · split
    · exact descends_self t _
    · refine forall_modifyGroup (fun g hg hid => ?_) (descends_self t _)
      subst hid
      dsimp only
      split
      · rename_i hs
        obtain ⟨rfl, hm⟩ := hs
        exact .inl ⟨g, hg, .sourced id hm⟩
      · exact .inl ⟨g, hg, .joined id role⟩

theorem Intact.addMatcher_descends (h : Intact t) (gid : GroupId) (stem : String) (role : Role) :
    Descends t (.addMatcher gid stem role) (t.orSame ((t.addMatcher gid stem role).map (·.2))) := by
  unfold Topology.addMatcher
  cases hg : t.group? gid with
  | none => exact descends_self t _
  | some b =>
    obtain ⟨hb, rfl⟩ := h.group?_eq.1 hg
    dsimp only [Except.map, orSame]
    split
    · rename_i hs
      obtain ⟨rfl, hm⟩ := hs
      refine forall_modifyGroup (fun g hg hid => ?_) (descends_self t _)
      cases h.group_eq hg hb hid
      exact .inl ⟨b, hb, .template stem hm⟩
    · exact descends_self t _

theorem Intact.removeGroup_descends (h : Intact t) (gid : GroupId) :
    Descends t (.removeGroup gid) (t.orSame ((t.removeGroup gid).map (·.2))) := by
  cases hg : t.group? gid with
  | none =>
    unfold Topology.removeGroup
    rw [hg]
    exact descends_self t _
  | some g =>
    obtain ⟨gone, u, hu, -, hgroups, -⟩ := h.removeGroup_spec hg
    rw [hu]
    exact descends_of_subset fun k hk => ((hgroups k).1 hk).1

/-- What an event may do to the groups. -/
theorem Intact.next_descends (h : Intact t) (e : Event) : Descends t e (t.next e) := by
  have hlinks : ∀ e, t.next e = t.resolveAll (t.bindings e) → Descends t e (t.next e) := by
    intro e he k hk
    rw [he] at hk
    rcases (h.resolveAll_rebound (t.bindings e)).known k hk with ⟨g, hg, hp⟩ | ⟨hm, ht⟩
    · exact .inl ⟨g, hg, .bound hp⟩
    · exact .inr ⟨ht, fun _ => hm⟩
  cases e with
  | addInterface id name => exact descends_of_subset fun k hk => addInterface_groups ▸ hk
  | removeInterface id =>
    intro k hk
    rcases groups_removeInterface hk with hk | ⟨g, hg, rfl⟩
    · exact descends_self t _ k hk
    · exact .inl ⟨g, hg, .left _ id⟩
  | addAddress id address => exact descends_self t _
  | setNetworkAddress id address => exact descends_self t _
  | modifyFlags id change => exact descends_self t _
  | setBinding id binding => exact descends_self t _
  | addGroup name mode relay => exact h.addGroup_descends name mode relay
  | setGroupPolicy gid policy tunnel resequence =>
    refine forall_modifyGroup (fun g hg hid => ?_) (descends_self t _)
    subst hid
    exact .inl ⟨g, hg, .policy policy tunnel resequence⟩
  | removeGroup gid => exact h.removeGroup_descends gid
  | addMember gid id role => exact addMember_descends t gid id role
  | removeMember gid id =>
    change Descends t _ (t.orSame ((t.removeMember gid id).map (·.2)))
    cases hr : t.removeMember gid id with
    | error _ => exact descends_self t _
    | ok r =>
      intro k hk
      obtain ⟨g, hg, rfl | rfl⟩ := h.groups_removeMember hr hk
      · exact descends_self t _ k hg
      · exact .inl ⟨g, hg, .left _ id⟩
  | associate gid =>
    refine descends_of_subset fun k hk => ?_
    rwa [show (t.next (.associate gid)).groups = t.groups from associate_groups t gid] at hk
  | addMatcher gid stem role => exact h.addMatcher_descends gid stem role
  | matchLinks m links => exact hlinks _ (next_matchLinks t m links)
  | linkUp link => exact hlinks _ (next_linkUp t link)

/-! ## Templates -/

/-- Only push groups are templates. -/
def TemplatesPush (t : Topology) : Prop := ∀ g ∈ t.groups, g.isTemplate = true → g.mode = .push

theorem Turns.templatePush (h : Turns t g e k) (hg : g.isTemplate = true → g.mode = .push)
    (hk : k.isTemplate = true) : k.mode = .push := by
  cases h with
  | same | policy | joined | left => exact hg hk
  | reconfigured mode relay =>
    unfold Group.setMode at hk ⊢
    by_cases hm : mode = .push
    · rw [if_pos hm]
      exact hm
    · rw [if_neg hm] at hk
      cases hk
  | sourced id hm => cases hk
  | template stem hm => exact hm
  | bound hp =>
    rw [hp.isTemplate] at hk
    exact hp.mode.trans (hg hk)

theorem Reachable.templatesPush (h : Reachable t) : TemplatesPush t := by
  induction h with
  | empty => exact fun g hg => absurd hg List.not_mem_nil
  | next e hr ih =>
    intro k hk ht
    rcases hr.intact.next_descends e k hk with ⟨g, hg, hturn⟩ | ⟨hnew, -⟩
    · exact hturn.templatePush (ih g hg) ht
    · rw [hnew] at ht
      cases ht

/-! ## Sources -/

/-- Only push groups that are no templates have a source. -/
def SourcesFit (t : Topology) : Prop := ∀ g ∈ t.groups, g.source ≠ none → g.Sourceable

/-- An event that binds a link as source under the name of a mesh or of a template. -/
def TakesOver (t : Topology) (e : Event) : Prop :=
  ∃ g ∈ t.groups, Sought (t.bindings e) g.name ∧ ¬g.Sourceable

theorem Turns.sourceable (h : Turns t g e k) (hg : g.source ≠ none → g.Sourceable)
    (hno : Sought (t.bindings e) g.name → g.Sourceable) (hk : k.source ≠ none) : k.Sourceable := by
  cases h with
  | same | policy | joined => exact hg hk
  | left _ id =>
    refine hg fun hs => hk ?_
    change (if g.source = some id then none else g.source) = none
    rw [hs]
    rfl
  | reconfigured mode relay =>
    unfold Group.setMode at hk ⊢
    by_cases hm : mode = .push
    · rw [if_pos hm] at hk ⊢
      exact ⟨hm, (hg hk).2⟩
    · rw [if_neg hm] at hk
      exact absurd rfl hk
  | sourced id hm => exact ⟨hm, rfl⟩
  | template stem hm => exact absurd rfl hk
  | bound hp =>
    have hfit : g.Sourceable := (hp.source.1 hk).elim hg hno
    exact ⟨hp.mode.trans hfit.1, hp.isTemplate.trans hfit.2⟩

/-- The only way to a source that does not fit. -/
theorem Reachable.next_sourcesFit (h : Reachable t) (hf : SourcesFit t) (e : Event) :
    SourcesFit (t.next e) ↔ ¬TakesOver t e := by
  constructor
  · rintro hu ⟨g, hg, hsought, hno⟩
    have hb : t.bindings e ≠ [] := by
      obtain ⟨p, hp, -⟩ := hsought
      exact List.ne_nil_of_mem hp
    obtain ⟨k, hk, hp⟩ := (h.intact.resolveAll_rebound (t.bindings e)).kept g hg
    rw [← next_eq_resolveAll hb] at hk
    obtain ⟨hm, ht⟩ := hu k hk (hp.source.2 (.inr hsought))
    exact hno ⟨hp.mode.symm.trans hm, hp.isTemplate.symm.trans ht⟩
  · intro hno k hk hs
    rcases h.intact.next_descends e k hk with ⟨g, hg, hturn⟩ | ⟨ht, hm⟩
    · refine hturn.sourceable (hf g hg) (fun hsought => ?_) hs
      by_contra hn
      exact hno ⟨g, hg, hsought, hn⟩
    · exact ⟨hm hs, ht⟩

/-- Templates are push groups all along. Sources are those of push groups that are no templates exactly
as long as no link is bound as source under the name of a mesh or of a template. -/
theorem sources_fit_iff (es : List Event) :
    Throughout TemplatesPush es ∧
      (Throughout SourcesFit es ↔ ∀ past e, past ++ [e] <+: es → ¬TakesOver (after past) e) := by
  constructor
  · intro past _
    exact (after_reachable past).templatesPush
  · have hempty : SourcesFit empty := fun g hg => absurd hg List.not_mem_nil
    apply throughout_iff hempty
    intro t e _ h hf
    exact h.next_sourcesFit hf e

/-- A mesh has the name that the instance for a dial-in link would have. -/
def nameTaken : List Event :=
  [.addGroup "ppp" .push .classicalFlooding, .addMatcher ⟨1⟩ "ppp" .source,
    .addGroup "ppp:ppp0" .merge .classicalFlooding]

/-- The mesh gets the link as its source. -/
theorem nameTaken_takes_over :
    ¬Throughout SourcesFit (nameTaken ++ [.linkUp ⟨"ppp0", 10, true⟩]) := by
  intro hall
  refine (sources_fit_iff _).2.1 hall nameTaken (.linkUp ⟨"ppp0", 10, true⟩) (List.prefix_refl _) ?_
  refine ⟨⟨⟨2⟩, "ppp:ppp0", .merge, .classicalFlooding, {}, false, false, false, none, [], none⟩,
    by decide +kernel, ⟨(⟨"ppp", "ppp", .source, .push, .classicalFlooding⟩, ⟨"ppp0", 10, true⟩),
      by decide +kernel, rfl, by decide +kernel⟩, fun hf => ?_⟩
  cases hf.1

end Topology
end MulticastRelay
