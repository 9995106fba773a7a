import MulticastRelay.Proofs.Topology.Conflicts

/-! # What is reported of a link that comes up

The matchers that accept a link take their turns. A turn only adds: the link becomes a member, and the
source where it is sought, so no turn takes back what another one did. The report lists the groups of
the turns that went well. A turn that meets a conflict keeps what it did and adds nothing to the
report, so the report is complete where the groups changed by such turns are listed for another one.
-/
namespace MulticastRelay

theorem InterfaceId.members_ext {xs ys : List InterfaceId}
    (hx : xs.Pairwise fun a b => a.before b = true) (hy : ys.Pairwise fun a b => a.before b = true)
    (h : ∀ a, a ∈ xs ↔ a ∈ ys) : xs = ys := by
  have hne : ∀ {a b : InterfaceId}, a.before b = true → a ≠ b := by
    rintro a b hab rfl
    exact Nat.lt_irrefl _ (of_decide_eq_true hab)
  have hperm := (List.perm_ext_iff_of_nodup (hx.imp hne) (hy.imp hne)).2 h
  refine hperm.eq_of_pairwise (fun a b _ _ hab hba => ?_) hx hy
  exact absurd (of_decide_eq_true hba) (Nat.not_lt_of_lt (of_decide_eq_true hab))

namespace Group

variable {g k l : Group} {id : InterfaceId}

/-- Who belongs to a group, and who is its source. -/
def shape (g : Group) : List InterfaceId × Option InterfaceId := (g.members, g.source)

/-- A group that lost no member, and whose source is the one it had or a given one. -/
structure Takes (id : InterfaceId) (g k : Group) : Prop where
  members : ∀ x ∈ g.members, x ∈ k.members
  source : k.source = g.source ∨ k.source = some id

namespace Takes

theorem refl (g : Group) : Takes id g g := ⟨fun _ hx => hx, .inl rfl⟩

theorem trans (h : Takes id g k) (hk : Takes id k l) : Takes id g l := by
  refine ⟨fun x hx => hk.members x (h.members x hx), ?_⟩
  rcases hk.source with hs | hs
  · rw [hs]
    exact h.source
  · exact .inr hs

theorem insertMember (g : Group) : Takes id g (g.insertMember id) :=
  ⟨fun _ hx => mem_insertMember.2 (.inr hx), .inl rfl⟩

/-- What was taken in on the way stays to the end. -/
theorem shape_between (h : Takes id g k) (hk : Takes id k l) (he : l.shape = g.shape)
    (hg : g.members.Pairwise fun a b => a.before b = true)
    (hs : k.members.Pairwise fun a b => a.before b = true) : k.shape = g.shape := by
  obtain ⟨hmembers, hsource⟩ := Prod.mk.inj he
  have hsame : k.members = g.members := by
    refine InterfaceId.members_ext hs hg fun x => ⟨fun hx => ?_, h.members x⟩
    rw [← hmembers]
    exact hk.members x hx
  have hsend : k.source = g.source := by
    rcases h.source with hid | hid
    · exact hid
    · rcases hk.source with hl | hl
      · rw [← hl, hsource]
      · rw [hid, ← hl, hsource]
  exact Prod.ext hsame hsend

end Takes

end Group

namespace Topology

variable {s t u v : Topology} {g k : Group} {m : Matcher} {link : Link} {touched : List GroupId}
  {e : TopologyError} {gid : GroupId} {id : InterfaceId} {ms : List Matcher}

/-! ## Changes of groups -/

/-- The members or the source of a group differ, or there is such a group in one topology alone. -/
def Altered (t u : Topology) (gid : GroupId) : Prop :=
  (t.group? gid).map Group.shape ≠ (u.group? gid).map Group.shape

instance : Decidable (Altered t u gid) := inferInstanceAs (Decidable (_ ≠ _))

/-- No group was lost, and each took in one interface at most. -/
def Fills (id : InterfaceId) (t u : Topology) : Prop :=
  ∀ gid g, t.group? gid = some g → ∃ k, u.group? gid = some k ∧ g.Takes id k

theorem Fills.of_groups (h : u.groups = t.groups) : Fills id t u :=
  fun gid g hg => ⟨g, (group?_congr h gid).trans hg, .refl g⟩

theorem Fills.trans (h : Fills id t u) (hk : Fills id u v) : Fills id t v := by
  intro gid g hg
  obtain ⟨k, hgid, hgk⟩ := h gid g hg
  obtain ⟨l, hl, hkl⟩ := hk gid k hgid
  exact ⟨l, hl, hgk.trans hkl⟩

/-- A change is one of the first part or one of the second, as neither undoes the other. -/
theorem altered_between (ht : Intact t) (hu : Intact u) (h : Fills id t u) (hk : Fills id u v) :
    Altered t v gid ↔ Altered t u gid ∨ Altered u v gid := by
  unfold Altered
  constructor
  · intro hne
    by_contra hboth
    obtain ⟨hfirst, hsecond⟩ := not_or.1 hboth
    exact hne ((not_not.1 hfirst).trans (not_not.1 hsecond))
  · intro hor hsame
    -- Where both ends agree the middle does too, as what came in on the way would still be there.
    have hfirst : (t.group? gid).map Group.shape = (u.group? gid).map Group.shape := by
      cases hg : t.group? gid with
      | none =>
        cases hm : u.group? gid with
        | none => rfl
        | some k =>
          obtain ⟨l, hl, -⟩ := hk gid k hm
          rw [hg, hl] at hsame
          cases hsame
      | some g =>
        obtain ⟨k, hm, hgk⟩ := h gid g hg
        obtain ⟨l, hl, hkl⟩ := hk gid k hm
        rw [hg, hl] at hsame
        have hsorted := (ht.peopled g (ht.group?_eq.1 hg).1).sorted
        have hkept := (hu.peopled k (hu.group?_eq.1 hm).1).sorted
        rw [hm]
        exact congrArg some (hgk.shape_between hkl (Option.some.inj hsame).symm hsorted hkept).symm
    rcases hor with hne | hne
    · exact hne hfirst
    · exact hne (hfirst.symm.trans hsame)

/-! ## One turn -/

theorem enroll_of_not_mem {groups : List GroupId} (h : g.id ∉ groups) : enroll id groups g = g := by
  unfold enroll
  refine List.foldlRecOn (motive := fun k => k = g) groups _ rfl ?_
  rintro _ rfl gid hgid
  rw [if_neg]
  rintro rfl
  exact h hgid

theorem enroll_takes (groups : List GroupId) (g : Group) : g.Takes id (enroll id groups g) :=
  ⟨fun x hx => ((enroll_gains groups g).members x).2 (.inl hx), .inl (enroll_gains groups g).source⟩

theorem group?_regroup {φ : Group → Group} (h : ∀ g, (φ g).id = g.id) :
    (t.regroup φ).group? gid = (t.group? gid).map φ :=
  Keyed.get?_map h

theorem group?_modifyGroup {f : Group → Group} {other : GroupId} (h : ∀ g, (f g).id = g.id) :
    (t.modifyGroup other f).group? gid =
      if gid = other then (t.group? other).map f else t.group? gid :=
  Keyed.get?_modify (fun g hid => (h g).trans hid) gid

/-- A binding leaves the groups alone that it does not list. -/
theorem Binds.group?_of_not_mem (h : t.Binds m link touched u) (ht : Intact t) (hu : Intact u)
    (hno : gid ∉ touched) : u.group? gid = t.group? gid := by
  cases h with
  | joined _ _ =>
    rw [group?_regroup fun g => (enroll_gains _ g).id]
    cases hg : t.group? gid with
    | none => rfl
    | some g =>
      have hid : g.id = gid := (Keyed.get?_mem hg).2
      exact congrArg some (enroll_of_not_mem (hid ▸ hno))
  | taken _ _ =>
    rw [group?_modifyGroup (f := Group.reseat ⟨link.index⟩) fun _ => rfl,
      if_neg (List.ne_of_not_mem_cons hno)]
  | made _ _ _ _ =>
    unfold group?
    rw [Keyed.get?_of_perm_cons (insertGroup_perm ht.unissued) hu.handles]
    exact if_neg fun he => hno (List.mem_singleton.2 he.symm)

theorem Binds.fills (h : t.Binds m link touched u) (ht : Intact t) (hu : Intact u) :
    Fills ⟨link.index⟩ t u := by
  intro gid g hg
  cases h with
  | joined _ _ =>
    have hk : (t.regroup (enroll ⟨link.index⟩ (t.groupsSharingName m.group))).group? gid =
        some (enroll ⟨link.index⟩ (t.groupsSharingName m.group) g) := by
      rw [group?_regroup fun g => (enroll_gains _ g).id, hg]
      rfl
    exact ⟨_, hk, enroll_takes _ g⟩
  | @taken k _ _ =>
    rw [group?_modifyGroup (f := Group.reseat ⟨link.index⟩) fun _ => rfl]
    by_cases hid : gid = k.id
    · rw [if_pos hid, ← hid, hg]
      exact ⟨_, rfl, (Group.Takes.insertMember g).members, .inr rfl⟩
    · rw [if_neg hid]
      exact ⟨g, hg, .refl g⟩
  | made _ _ _ _ =>
    refine ⟨g, hu.group?_eq.2 ⟨?_, (ht.group?_eq.1 hg).2⟩, .refl g⟩
    exact (mem_insertGroup ht.unissued).2 (.inr (ht.group?_eq.1 hg).1)

theorem Intact.resolve_fills (h : Intact t) (m : Matcher) (link : Link) :
    Fills ⟨link.index⟩ t (t.resolve m link).2 := by
  have ha := h.addInterface ⟨link.index⟩ link.name
  have hfirst : Fills ⟨link.index⟩ t (t.addInterface ⟨link.index⟩ link.name) :=
    .of_groups addInterface_groups
  rcases h.resolve_cases m link with ⟨-, e, he⟩ | ⟨touched, u, hb, he⟩
  · rw [he]
    exact hfirst
  · rw [he]
    have hu := hb.intact ha (h.addInterface_has _ _)
    exact (hfirst.trans (hb.fills ha hu)).trans (.of_groups (associateAll_groups u touched))

/-- A turn changes groups that it lists, or meets a conflict. -/
theorem Intact.resolve_altered (h : Intact t)
    (ha : Altered t (t.resolve m link).2 gid) :
    (∃ touched, (t.resolve m link).1 = .ok touched ∧ gid ∈ touched) ∨
      ∃ e, (t.resolve m link).1 = .error e ∧ e.IsConflict := by
  have hi := h.addInterface ⟨link.index⟩ link.name
  rcases h.resolve_cases m link with ⟨-, e, he⟩ | ⟨touched, u, hb, he⟩
  · rw [he] at ha
    exact absurd (congrArg (Option.map Group.shape) (group?_congr addInterface_groups gid).symm) ha
  · cases hf : (t.resolve m link).1 with
    | error e => exact .inr ⟨e, rfl, hb.resolve_error h hf⟩
    | ok listed =>
      left
      have hlisted : listed = touched := by
        rw [he] at hf
        dsimp only at hf
        split at hf
        · cases hf
        · exact (Except.ok.inj hf).symm
      refine ⟨listed, rfl, ?_⟩
      rw [hlisted]
      by_contra hno
      refine ha (congrArg (Option.map Group.shape) ?_)
      rw [he, group?_congr (associateAll_groups u touched),
        hb.group?_of_not_mem hi (hb.intact hi (h.addInterface_has _ _)) hno,
        group?_congr addInterface_groups]

/-! ## All turns -/

/-- A matcher of a list takes its turn, with the topology as the ones before it left it. -/
inductive InTurn (link : Link) : Topology → List Matcher → Topology → Matcher → Prop where
  | first (t : Topology) (m : Matcher) (ms : List Matcher) : InTurn link t (m :: ms) t m
  | later {t s : Topology} {n m : Matcher} {ms : List Matcher} :
      InTurn link (t.resolve n link).2 ms s m → InTurn link t (n :: ms) s m

theorem inTurn_cons {n : Matcher} :
    InTurn link t (n :: ms) s m ↔
      (s = t ∧ m = n) ∨ InTurn link (t.resolve n link).2 ms s m := by
  constructor
  · intro h
    cases h with
    | first => exact .inl ⟨rfl, rfl⟩
    | later h => exact .inr h
  · rintro (⟨rfl, rfl⟩ | h)
    · exact .first s m ms
    · exact .later h

theorem InTurn.intact (h : InTurn link t ms s m) (hi : Intact t) : Intact s := by
  induction h with
  | first => exact hi
  | later _ ih => exact ih (hi.resolve _ _)

theorem Intact.resolveAll_fills (h : Intact t) (ms : List Matcher) (link : Link) :
    Fills ⟨link.index⟩ t (t.resolveAll (ms.map (·, link))) := by
  induction ms generalizing t with
  | nil => exact .of_groups rfl
  | cons n ms ih => exact (h.resolve_fills n link).trans (ih (h.resolve n link))

/-- What all turns change together is what each of them changes. -/
theorem Intact.resolveAll_altered (h : Intact t) (ms : List Matcher) (link : Link) :
    Altered t (t.resolveAll (ms.map (·, link))) gid ↔
      ∃ s m, InTurn link t ms s m ∧ Altered s (s.resolve m link).2 gid := by
  induction ms generalizing t with
  | nil =>
    constructor
    · intro ha
      exact absurd rfl ha
    · rintro ⟨s, m, hturn, -⟩
      cases hturn
  | cons n ms ih =>
    have hu := h.resolve n link
    have hboth : Altered t ((t.resolve n link).2.resolveAll (ms.map (·, link))) gid ↔ _ :=
      altered_between h hu (h.resolve_fills n link) (hu.resolveAll_fills ms link)
    change Altered t ((t.resolve n link).2.resolveAll (ms.map (·, link))) gid ↔ _
    rw [hboth, ih hu]
    constructor
    · rintro (ha | ⟨s, m, hturn, ha⟩)
      · exact ⟨t, n, .first t n ms, ha⟩
      · exact ⟨s, m, .later hturn, ha⟩
    · rintro ⟨s, m, hturn, ha⟩
      rcases inTurn_cons.1 hturn with ⟨rfl, rfl⟩ | hturn
      · exact .inl ha
      · exact .inr ⟨s, m, hturn, ha⟩

/-- The report lists what the turns list that went well. -/
theorem mem_listedAll :
    gid ∈ t.listedAll link ms ↔ ∃ s m touched, InTurn link t ms s m ∧
      (s.resolve m link).1 = .ok touched ∧ gid ∈ touched := by
  induction ms generalizing t with
  | nil =>
    constructor
    · intro hin
      exact absurd hin List.not_mem_nil
    · rintro ⟨s, m, touched, hturn, -⟩
      cases hturn
  | cons n ms ih =>
    have hfirst : gid ∈ listed (t.resolve n link).1 ↔
        ∃ touched, (t.resolve n link).1 = .ok touched ∧ gid ∈ touched := by
      cases (t.resolve n link).1 with
      | ok touched => simp [listed]
      | error e => simp [listed]
    change gid ∈ listed (t.resolve n link).1 ++ (t.resolve n link).2.listedAll link ms ↔ _
    rw [List.mem_append, hfirst, ih]
    constructor
    · rintro (⟨touched, hok, hin⟩ | ⟨s, m, touched, hturn, hok⟩)
      · exact ⟨t, n, touched, .first t n ms, hok, hin⟩
      · exact ⟨s, m, touched, .later hturn, hok⟩
    · rintro ⟨s, m, touched, hturn, hok, hin⟩
      rcases inTurn_cons.1 hturn with ⟨rfl, rfl⟩ | hturn
      · exact .inl ⟨touched, hok, hin⟩
      · exact .inr ⟨s, m, touched, hturn, hok, hin⟩

theorem mem_linkUp (hu : link.up = true) :
    gid ∈ (t.linkUp link).1 ↔ ∃ s m touched, InTurn link t (t.matchers.matching link.name) s m ∧
      (s.resolve m link).1 = .ok touched ∧ gid ∈ touched := by
  have htotal : ∀ a b : GroupId, a.before b = true ∨ b.before a = true ∨ a = b := by
    rintro ⟨a⟩ ⟨b⟩
    simp only [GroupId.before, decide_eq_true_eq, GroupId.mk.injEq]
    omega
  rw [linkUp_fst t link hu, Ascending.mem_ofList_iff htotal, mem_listedAll]

/-- The report is in order and lists no group twice. It lists every group that changed exactly if it
lists those changed by the turns that ended in a conflict. -/
theorem report_complete_iff (h : Reachable t) (link : Link) (hu : link.up = true) :
    ((t.linkUp link).1.Pairwise fun a b => a.before b = true) ∧
      ((∀ gid, Altered t (t.linkUp link).2 gid → gid ∈ (t.linkUp link).1) ↔
        ∀ s m e, InTurn link t (t.matchers.matching link.name) s m →
          (s.resolve m link).1 = .error e → e.IsConflict →
          ∀ gid, Altered s (s.resolve m link).2 gid → gid ∈ (t.linkUp link).1) := by
  have hchanges : ∀ gid, Altered t (t.linkUp link).2 gid ↔
      ∃ s m, InTurn link t (t.matchers.matching link.name) s m ∧
        Altered s (s.resolve m link).2 gid := by
    intro gid
    rw [linkUp_snd t link hu]
    exact h.intact.resolveAll_altered _ link
  constructor
  · rw [linkUp_fst t link hu]
    refine Ascending.ofList_pairwise fun {a b c} hab hbc => ?_
    exact decide_eq_true ((of_decide_eq_true hab).trans (of_decide_eq_true hbc))
  · constructor
    · intro hall s m e hturn _ _ gid ha
      exact hall gid ((hchanges gid).2 ⟨s, m, hturn, ha⟩)
    · intro hconf gid ha
      obtain ⟨s, m, hturn, ha⟩ := (hchanges gid).1 ha
      rcases (hturn.intact h.intact).resolve_altered ha with ⟨touched, hok, hin⟩ | ⟨e, he, hc⟩
      · exact (mem_linkUp hu).2 ⟨s, m, touched, hturn, hok, hin⟩
      · exact hconf s m e hturn he hc gid ha

/-- A link that a mesh relays from is awaited as a source of another group. -/
def meshedLink : List Event :=
  [.addInterface ⟨1⟩ "wlan0", .addInterface ⟨10⟩ "ppp0",
    .addGroup "mesh" .merge .classicalFlooding, .addMember ⟨1⟩ ⟨1⟩ .destination,
    .addMember ⟨1⟩ ⟨10⟩ .destination, .associate ⟨1⟩,
    .addGroup "push" .push .classicalFlooding, .addMember ⟨2⟩ ⟨1⟩ .destination,
    .addMatcher ⟨2⟩ "ppp" .source]

/-- The group made for it is not reported. -/
theorem meshedLink_goes_unreported :
    ¬∀ gid, Altered (after meshedLink) ((after meshedLink).linkUp ⟨"ppp0", 10, true⟩).2 gid →
      gid ∈ ((after meshedLink).linkUp ⟨"ppp0", 10, true⟩).1 := by
  intro hall
  have hiff := (report_complete_iff (after_reachable meshedLink) ⟨"ppp0", 10, true⟩ rfl).2
  have hturn : InTurn ⟨"ppp0", 10, true⟩ (after meshedLink)
      ((after meshedLink).matchers.matching "ppp0") (after meshedLink)
      ⟨"ppp", "push", .source, .push, .classicalFlooding⟩ :=
    .first _ _ []
  have hconflict : ((after meshedLink).resolve ⟨"ppp", "push", .source, .push, .classicalFlooding⟩
      ⟨"ppp0", 10, true⟩).1 = .error (.conflict (⟨10⟩, ⟨1⟩) ⟨1⟩ 1) := by
    decide +kernel
  have hlisted := hiff.1 hall _ _ _ hturn hconflict ⟨_, _, _, rfl⟩ ⟨3⟩ (by decide +kernel)
  have hempty : ((after meshedLink).linkUp ⟨"ppp0", 10, true⟩).1 = [] := by
    decide +kernel
  rw [hempty] at hlisted
  exact absurd hlisted List.not_mem_nil

end Topology
end MulticastRelay
