import MulticastRelay.Proofs.Topology.Naming
import MulticastRelay.Proofs.Topology.Spread

/-! # Histories and bindings

What held throughout a history is told from its single steps. A scan, or a link that comes up, is a
list of matchers resolved in turn; each of them leaves the groups alone, lets the link join a family,
lets it take over the group that has the name of its instance, or makes that instance.
-/
namespace MulticastRelay.Topology

variable {s t u v : Topology} {g k : Group} {m : Matcher} {link : Link} {touched : List GroupId}
  {ps qs : List (Matcher × Link)}

/-! ## Histories -/

/-- The topology after a history. -/
def after (es : List Event) : Topology := es.foldl next empty

theorem after_reachable (es : List Event) : Reachable (after es) := reachable_foldl .empty es

theorem after_append (past es : List Event) : after (past ++ es) = es.foldl next (after past) :=
  List.foldl_append

theorem after_concat (past : List Event) (e : Event) : after (past ++ [e]) = (after past).next e :=
  after_append past [e]

/-- A property holds at the start of a history and after each of its events. -/
def Throughout (P : Topology → Prop) (es : List Event) : Prop := ∀ past, past <+: es → P (after past)

/-- What only certain events break holds throughout the histories without such an event, and no
others. -/
theorem throughout_iff {P : Topology → Prop} {Breaks : Topology → Event → Prop} {es : List Event}
    (h : P empty)
    (hstep : ∀ t, ∀ e ∈ es, Reachable t → P t → (P (t.next e) ↔ ¬Breaks t e)) :
    Throughout P es ↔ ∀ past e, past ++ [e] <+: es → ¬Breaks (after past) e := by
  have hmem : ∀ {past e}, past ++ [e] <+: es → e ∈ es := fun he =>
    he.subset (List.mem_append_right _ List.mem_cons_self)
  constructor
  · intro hP past e he
    have hpast : P (after past) := hP past ((List.prefix_append past [e]).trans he)
    apply (hstep _ e (hmem he) (after_reachable past) hpast).1
    rw [← after_concat]
    exact hP _ he
  · intro hno past
    induction past using List.reverseRecOn with
    | nil => intro _; exact h
    | append_singleton past e ih =>
      intro he
      have hpast : P (after past) := ih ((List.prefix_append past [e]).trans he)
      rw [after_concat]
      exact (hstep _ e (hmem he) (after_reachable past) hpast).2 (hno past e he)

/-! ## One matcher -/

theorem group?_congr (h : u.groups = t.groups) (gid : GroupId) : u.group? gid = t.group? gid :=
  congrArg (Keyed.get? Group.id gid) h

theorem groupNamed?_congr (h : u.groups = t.groups) (hn : u.groupNames = t.groupNames)
    (name : String) : u.groupNamed? name = t.groupNamed? name := by
  unfold groupNamed? handleOf? group?
  rw [h, hn]

/-- The changes of groups that bind a link whose interface is there already. -/
inductive Binds (t : Topology) (m : Matcher) (link : Link) : List GroupId → Topology → Prop where
  | joined : m.role = .destination → t.groupsSharingName m.group ≠ [] →
      Binds t m link (t.groupsSharingName m.group)
        (t.regroup (enroll ⟨link.index⟩ (t.groupsSharingName m.group)))
  | taken {g : Group} : m.role = .source →
      t.groupNamed? (instanceName m.group link.name) = some g →
      Binds t m link [g.id] (t.modifyGroup g.id (Group.reseat ⟨link.index⟩))
  | made {base : Group} : m.role = .source →
      t.groupNamed? (instanceName m.group link.name) = none →
      t.groupNamed? m.group = some base → base.mode = .push →
      Binds t m link [⟨t.lastGroup + 1⟩] (t.insertGroup
        (base.instantiate ⟨t.lastGroup + 1⟩ (instanceName m.group link.name) ⟨link.index⟩))

/-- There is no group for a link to be bound to. -/
def Refuses (t : Topology) (m : Matcher) (link : Link) : Prop :=
  match m.role with
  | .destination => t.groupsSharingName m.group = []
  | .source => t.groupNamed? (instanceName m.group link.name) = none ∧
      ∀ base, t.groupNamed? m.group = some base → base.mode ≠ .push

theorem Binds.interfaces (h : Binds t m link touched u) : u.interfaces = t.interfaces := by
  cases h <;> rfl

/-- Either way the link ends up a member. -/
theorem Binds.member (h : Binds t m link touched u) (hi : Intact t) :
    ∃ g ∈ u.groups, ⟨link.index⟩ ∈ g.members := by
  cases h with
  | joined _ hne =>
    have hj := (hi.joinAll_member ⟨link.index⟩ m.group hne).2
    rwa [joinAll_eq] at hj
  | taken _ hg =>
    refine ⟨_, List.mem_map_of_mem (hi.groupNamed?_eq.1 hg).1, ?_⟩
    rw [if_pos rfl]
    exact Group.mem_insertMember.2 (.inl rfl)
  | made _ hfree _ _ =>
    refine ⟨_, (mem_insertGroup hi.unissued).2 (.inl rfl), ?_⟩
    exact Group.mem_insertMember.2 (.inl rfl)

theorem Binds.intact (h : t.Binds m link touched u) (hi : Intact t) (hid : t.Has ⟨link.index⟩) :
    Intact u := by
  cases h with
  | joined =>
    rw [← joinAll_eq]
    exact hi.joinAll hid _
  | taken _ hg => exact hi.instantiate hid (hi.instantiate_taken _ hg)
  | made _ hfree hbase hm => exact hi.instantiate hid (hi.instantiate_made _ hfree hbase hm)

theorem refuses_or_binds (t : Topology) (m : Matcher) (link : Link) :
    t.Refuses m link ∨ ∃ touched u, t.Binds m link touched u := by
  unfold Refuses
  cases hr : m.role with
  | destination =>
    by_cases he : t.groupsSharingName m.group = []
    · exact .inl he
    · exact .inr ⟨_, _, .joined hr he⟩
  | source =>
    cases hg : t.groupNamed? (instanceName m.group link.name) with
    | some g => exact .inr ⟨_, _, .taken hr hg⟩
    | none =>
      cases hb : t.groupNamed? m.group with
      | none => exact .inl ⟨rfl, fun base he => by cases he⟩
      | some base =>
        by_cases hm : base.mode = .push
        · exact .inr ⟨_, _, .made hr hg hb hm⟩
        · refine .inl ⟨rfl, fun b he => ?_⟩
          cases he
          exact hm

/-- The middle part of a resolution. -/
def bindTo (t : Topology) (m : Matcher) (link : Link) :
    Except TopologyError (List GroupId × Topology) :=
  match m.role with
  | .source => (t.instantiate m.group ⟨link.index⟩ link.name).map fun (group, t) => ([group], t)
  | .destination =>
    let groups := t.groupsSharingName m.group
    if groups.isEmpty then .error (.unknownGroup m.group) else .ok (groups, t.joinAll groups ⟨link.index⟩)

theorem resolve_eq (t : Topology) (m : Matcher) (link : Link) :
    t.resolve m link =
      match (t.addInterface ⟨link.index⟩ link.name).bindTo m link with
      | .error e => (.error e, t.addInterface ⟨link.index⟩ link.name)
      | .ok (touched, t) =>
        let (conflict, t) := t.associateAll touched
        let t := if (t.groupsOf ⟨link.index⟩).isEmpty then t.removeInterface ⟨link.index⟩ else t
        match conflict with
        | some e => (.error e, t)
        | none => (.ok touched, t) := rfl

theorem Refuses.bindTo (h : t.Refuses m link) (hc : Catalogued t) :
    ∃ e, t.bindTo m link = .error e := by
  unfold Refuses at h
  unfold Topology.bindTo
  split at h
  · rename_i hr
    rw [hr]
    dsimp only
    rw [h]
    exact ⟨_, rfl⟩
  · rename_i hr
    obtain ⟨hfree, hmode⟩ := h
    rw [hr, hc.instantiate_eq, hfree]
    dsimp only
    split
    · exact ⟨_, rfl⟩
    · rename_i base hb
      rw [if_neg (hmode base hb)]
      exact ⟨_, rfl⟩

theorem Binds.bindTo (h : t.Binds m link touched u) (hc : Catalogued t) :
    t.bindTo m link = .ok (touched, u) := by
  unfold Topology.bindTo
  cases h with
  | joined hr hne =>
    have he := Bool.eq_false_iff.2 fun he => hne (List.isEmpty_iff.1 he)
    rw [hr]
    dsimp only
    rw [he, joinAll_eq]
    rfl
  | taken hr hg =>
    rw [hr]
    dsimp only
    rw [hc.instantiate_taken _ hg]
    rfl
  | made hr hfree hbase hm =>
    rw [hr]
    dsimp only
    rw [hc.instantiate_made _ hfree hbase hm]
    rfl

/-- A link that is refused leaves its interface behind. -/
theorem Intact.resolve_of_refuses (h : Intact t)
    (hr : (t.addInterface ⟨link.index⟩ link.name).Refuses m link) :
    ∃ e, t.resolve m link = (.error e, t.addInterface ⟨link.index⟩ link.name) := by
  obtain ⟨e, he⟩ := hr.bindTo (h.addInterface _ _).toCatalogued
  rw [resolve_eq, he]
  exact ⟨e, rfl⟩

/-- A link that is bound stays, as it is a member of a group; the groups it touched have their pass. -/
theorem Intact.resolve_of_binds (h : Intact t)
    (hb : (t.addInterface ⟨link.index⟩ link.name).Binds m link touched u) :
    t.resolve m link =
      (match (u.associateAll touched).1 with
        | some e => .error e
        | none => .ok touched, (u.associateAll touched).2) := by
  have hstay : ((u.associateAll touched).2.groupsOf ⟨link.index⟩).isEmpty ≠ true := by
    intro he
    obtain ⟨g, hg, hin⟩ := hb.member (h.addInterface ⟨link.index⟩ link.name)
    exact groupsOf_isEmpty_iff.1 he g (associateAll_groups u touched ▸ hg) hin
  rw [resolve_eq, hb.bindTo (h.addInterface _ _).toCatalogued]
  dsimp only
  rw [if_neg hstay]
  cases (u.associateAll touched).1 <;> rfl

/-- What a matcher does to a topology, with the outcome that it reports. -/
theorem Intact.resolve_cases (h : Intact t) (m : Matcher) (link : Link) :
    ((t.addInterface ⟨link.index⟩ link.name).Refuses m link ∧
      ∃ e, t.resolve m link = (.error e, t.addInterface ⟨link.index⟩ link.name)) ∨
    ∃ touched u, (t.addInterface ⟨link.index⟩ link.name).Binds m link touched u ∧
      t.resolve m link =
        (match (u.associateAll touched).1 with
          | some e => .error e
          | none => .ok touched, (u.associateAll touched).2) := by
  rcases refuses_or_binds (t.addInterface ⟨link.index⟩ link.name) m link with hr | ⟨_, _, hb⟩
  · exact .inl ⟨hr, h.resolve_of_refuses hr⟩
  · exact .inr ⟨_, _, hb, h.resolve_of_binds hb⟩

/-! ## Groups after a binding -/

/-- One of the links is bound as source under the name of a group. -/
def Sought (ps : List (Matcher × Link)) (name : String) : Prop :=
  ∃ p ∈ ps, p.1.role = .source ∧ name = instanceName p.1.group p.2.name

/-- A group after links were bound: it may have gained members, and a source if one was sought. -/
structure Persists (ps : List (Matcher × Link)) (g k : Group) : Prop where
  id : k.id = g.id
  name : k.name = g.name
  mode : k.mode = g.mode
  isTemplate : k.isTemplate = g.isTemplate
  source : k.source ≠ none ↔ g.source ≠ none ∨ Sought ps g.name

/-- No group is lost to a binding, and those that come are push groups of one source. -/
structure Rebound (ps : List (Matcher × Link)) (t u : Topology) : Prop where
  kept : ∀ g ∈ t.groups, ∃ k ∈ u.groups, Persists ps g k
  known : ∀ k ∈ u.groups, (∃ g ∈ t.groups, Persists ps g k) ∨ k.mode = .push ∧ k.isTemplate = false

theorem sought_append {name : String} :
    Sought (ps ++ qs) name ↔ Sought ps name ∨ Sought qs name := by
  unfold Sought
  simp only [List.mem_append, or_and_right, exists_or]

theorem sought_singleton {name : String} :
    Sought [(m, link)] name ↔ m.role = .source ∧ name = instanceName m.group link.name := by
  simp [Sought]

theorem Persists.unsought (hid : k.id = g.id) (hn : k.name = g.name) (hm : k.mode = g.mode)
    (ht : k.isTemplate = g.isTemplate) (hs : k.source = g.source) (h : ¬Sought ps g.name) :
    Persists ps g k :=
  ⟨hid, hn, hm, ht, by rw [hs, or_iff_left h]⟩

theorem Persists.trans {l : Group} (h : Persists ps g k) (hk : Persists qs k l) :
    Persists (ps ++ qs) g l where
  id := hk.id.trans h.id
  name := hk.name.trans h.name
  mode := hk.mode.trans h.mode
  isTemplate := hk.isTemplate.trans h.isTemplate
  source := by rw [hk.source, h.source, h.name, sought_append, or_assoc]

namespace Rebound

theorem refl (hg : u.groups = t.groups) : Rebound [] t u := by
  have hself : ∀ g, Persists [] g g := fun g => ⟨rfl, rfl, rfl, rfl, by simp [Sought]⟩
  exact ⟨fun g hm => ⟨g, hg ▸ hm, hself g⟩, fun k hm => .inl ⟨k, hg ▸ hm, hself k⟩⟩

theorem trans (h : Rebound ps t u) (hk : Rebound qs u v) : Rebound (ps ++ qs) t v := by
  constructor
  · intro g hg
    obtain ⟨k, hkm, hgk⟩ := h.kept g hg
    obtain ⟨l, hlm, hkl⟩ := hk.kept k hkm
    exact ⟨l, hlm, hgk.trans hkl⟩
  · intro l hl
    rcases hk.known l hl with ⟨k, hkm, hkl⟩ | hnew
    · rcases h.known k hkm with ⟨g, hg, hgk⟩ | ⟨hm, ht⟩
      · exact .inl ⟨g, hg, hgk.trans hkl⟩
      · exact .inr ⟨hkl.mode.trans hm, hkl.isTemplate.trans ht⟩
    · exact .inr hnew

theorem congr (h : Rebound ps t u) (ht : s.groups = t.groups) (hu : v.groups = u.groups) :
    Rebound ps s v :=
  ⟨fun g hg => hu ▸ h.kept g (ht ▸ hg), fun k hk => ht ▸ h.known k (hu ▸ hk)⟩

/-- A change of groups one by one. -/
theorem regroup {φ : Group → Group} (h : ∀ g ∈ t.groups, Persists ps g (φ g)) :
    Rebound ps t (t.regroup φ) := by
  constructor
  · intro g hg
    exact ⟨φ g, List.mem_map_of_mem hg, h g hg⟩
  · intro k hk
    obtain ⟨g, hg, rfl⟩ := List.mem_map.1 hk
    exact .inl ⟨g, hg, h g hg⟩

theorem insertGroup (hn : ∀ k ∈ t.groups, k.id ≠ g.id) (hm : g.mode = .push)
    (ht : g.isTemplate = false) (hs : ∀ k ∈ t.groups, ¬Sought ps k.name) :
    Rebound ps t (t.insertGroup g) := by
  have hself : ∀ k ∈ t.groups, Persists ps k k := fun k hk =>
    .unsought rfl rfl rfl rfl rfl (hs k hk)
  constructor
  · intro k hk
    exact ⟨k, (mem_insertGroup hn).2 (.inr hk), hself k hk⟩
  · intro k hk
    rcases (mem_insertGroup hn).1 hk with rfl | hk
    · exact .inr ⟨hm, ht⟩
    · exact .inl ⟨k, hk, hself k hk⟩

end Rebound

theorem Refuses.rebound (h : t.Refuses m link) (hi : Intact t) : Rebound [(m, link)] t t := by
  have hfree : ∀ g ∈ t.groups, ¬Sought [(m, link)] g.name := by
    intro g hg hs
    obtain ⟨hr, hn⟩ := sought_singleton.1 hs
    unfold Refuses at h
    rw [hr] at h
    exact hi.groupNamed?_eq_none_iff.1 h.1 g hg hn
  have hself : ∀ g ∈ t.groups, Persists [(m, link)] g g := fun g hg =>
    .unsought rfl rfl rfl rfl rfl (hfree g hg)
  exact ⟨fun g hg => ⟨g, hg, hself g hg⟩, fun k hk => .inl ⟨k, hk, hself k hk⟩⟩

theorem Binds.rebound (h : t.Binds m link touched u) (hi : Intact t) : Rebound [(m, link)] t u := by
  cases h with
  | joined hr _ =>
    refine .regroup fun g _ => ?_
    have hk : Group.Gains ⟨link.index⟩ _ g (enroll ⟨link.index⟩ (t.groupsSharingName m.group) g) :=
      enroll_gains (t.groupsSharingName m.group) g
    refine .unsought hk.id hk.name hk.mode hk.isTemplate hk.source fun hs => ?_
    rw [(sought_singleton.1 hs).1] at hr
    cases hr
  | @taken g hr hg =>
    obtain ⟨hg, hn⟩ := hi.groupNamed?_eq.1 hg
    rw [modifyGroup_eq]
    refine .regroup fun k hk => ?_
    by_cases hid : k.id = g.id
    · rw [if_pos hid]
      cases hi.group_eq hk hg hid
      exact ⟨rfl, rfl, rfl, rfl, iff_of_true (Option.some_ne_none _)
        (.inr (sought_singleton.2 ⟨hr, hn⟩))⟩
    · rw [if_neg hid]
      refine .unsought rfl rfl rfl rfl rfl fun hs => hid ?_
      have he : k.name = g.name := (sought_singleton.1 hs).2.trans hn.symm
      rw [hi.named_eq hk hg he]
  | made hr hfree _ _ =>
    have hfree := hi.groupNamed?_eq_none_iff.1 hfree
    exact .insertGroup hi.unissued rfl rfl fun g hg hs => hfree g hg (sought_singleton.1 hs).2

theorem Intact.resolve_rebound (h : Intact t) (m : Matcher) (link : Link) :
    Rebound [(m, link)] t (t.resolve m link).2 := by
  have ha := h.addInterface ⟨link.index⟩ link.name
  rcases h.resolve_cases m link with ⟨hr, e, he⟩ | ⟨touched, u, hb, he⟩
  · rw [he]
    exact (hr.rebound ha).congr addInterface_groups.symm rfl
  · rw [he]
    exact (hb.rebound ha).congr addInterface_groups.symm (associateAll_groups u touched)

/-- Links bound one after the other. -/
theorem Intact.resolveAll_rebound (h : Intact t) (ps : List (Matcher × Link)) :
    Rebound ps t (t.resolveAll ps) := by
  induction ps generalizing t with
  | nil => exact .refl rfl
  | cons p ps ih => exact (h.resolve_rebound p.1 p.2).trans (ih (h.resolve p.1 p.2))

/-! ## Events -/

/-- The matchers that an event resolves, each with the link it is resolved against. -/
def bindings (t : Topology) : Event → List (Matcher × Link)
  | .matchLinks m links => (links.filter fun l => l.up && m.accepts l.name).map (m, ·)
  | .linkUp link => if link.up then (t.matchers.matching link.name).map (·, link) else []
  | _ => []

theorem next_matchLinks (t : Topology) (m : Matcher) (links : List Link) :
    t.next (.matchLinks m links) = t.resolveAll (t.bindings (.matchLinks m links)) :=
  matchLinks_snd t m links

theorem next_linkUp (t : Topology) (link : Link) :
    t.next (.linkUp link) = t.resolveAll (t.bindings (.linkUp link)) := by
  by_cases hu : link.up = true
  · have hb : t.bindings (.linkUp link) = (t.matchers.matching link.name).map (·, link) := if_pos hu
    rw [hb]
    exact linkUp_snd t link hu
  · have hb : t.bindings (.linkUp link) = [] := if_neg hu
    rw [hb]
    change (t.linkUp link).2 = t
    unfold linkUp
    simp [hu]

/-- What a resolution adds to the report of a link. -/
def listed : Except TopologyError (List GroupId) → List GroupId
  | .ok touched => touched
  | .error _ => []

/-- What matchers resolved in turn add to the report of a link. -/
def listedAll (t : Topology) (link : Link) : List Matcher → List GroupId
  | [] => []
  | m :: ms => listed (t.resolve m link).1 ++ (t.resolve m link).2.listedAll link ms

theorem foldl_listed {f : List GroupId × Topology → Matcher → List GroupId × Topology}
    (hf : ∀ s m, f s m = (s.1 ++ listed (s.2.resolve m link).1, (s.2.resolve m link).2))
    (ms : List Matcher) (s : List GroupId × Topology) :
    (ms.foldl f s).1 = s.1 ++ s.2.listedAll link ms := by
  induction ms generalizing s with
  | nil => exact (List.append_nil s.1).symm
  | cons m ms ih =>
    rw [List.foldl_cons, ih, hf]
    exact List.append_assoc _ _ _

theorem linkUp_fst (t : Topology) (link : Link) (hu : link.up = true) :
    (t.linkUp link).1 =
      Ascending.ofList GroupId.before (t.listedAll link (t.matchers.matching link.name)) := by
  unfold linkUp
  rw [hu]
  refine congrArg (Ascending.ofList GroupId.before) (foldl_listed (fun s m => ?_) _ ([], t))
  rcases s with ⟨acc, u⟩
  dsimp only
  rcases u.resolve m link with ⟨e | touched, v⟩
  · exact Prod.ext (List.append_nil acc).symm rfl
  · rfl

theorem next_eq_resolveAll {e : Event} (h : t.bindings e ≠ []) :
    t.next e = t.resolveAll (t.bindings e) := by
  cases e with
  | matchLinks m links => exact next_matchLinks t m links
  | linkUp link => exact next_linkUp t link
  | _ => exact absurd rfl h

end MulticastRelay.Topology
