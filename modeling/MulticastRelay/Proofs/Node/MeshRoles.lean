import MulticastRelay.Proofs.Node.InStep
import MulticastRelay.Proofs.Topology.Bearers
import MulticastRelay.Proofs.Topology.Indifference
import MulticastRelay.Proofs.Topology.Joining

/-! # Roles in a mesh

A concrete member of a mesh is taken in whatever its role. A wildcard is registered with its role, and
that makes a difference as soon as a link matches: as a destination the link joins the mesh, and as a
source it does not, since a mesh is no template. Until then the two registrations cannot be told apart,
whatever other links come up.
-/
namespace MulticastRelay

open MulticastRelay.Topology

theorem Mode.ne_push_of_isMesh {mode : Mode} (h : mode.isMesh = true) : mode ≠ .push := by
  rintro rfl
  cases h

/-- The matcher that a group registers for a stem. -/
def Group.rule (g : Group) (stem : String) (role : Role) : Matcher :=
  ⟨stem, g.name, role, g.mode, g.relayType⟩

namespace Topology

variable {t : Topology} {g : Group} {stem : String}

/-! ## Meshes and their matchers -/

theorem Intact.modifyGroup_congr {f k : Group → Group} (hi : t.Intact)
    (hg : t.group? g.id = some g) (hf : f g = k g) :
    t.modifyGroup g.id f = t.modifyGroup g.id k := by
  have hmap : t.groups.map (fun l => if l.id = g.id then f l else l) =
      t.groups.map (fun l => if l.id = g.id then k l else l) := by
    refine List.map_congr_left fun l hl => ?_
    by_cases hid : l.id = g.id
    · cases hi.group_eq hl (hi.group?_eq.1 hg).1 hid
      rw [if_pos rfl, if_pos rfl, hf]
    · rw [if_neg hid, if_neg hid]
  exact congrArg (fun groups => { t with groups }) hmap

/-- Only a push group takes a source. -/
theorem addMember_mesh {id : InterfaceId} (hi : t.Intact)
    (hg : t.group? g.id = some g) (hm : g.mode.isMesh = true) :
    t.addMember g.id id .source = t.addMember g.id id .destination := by
  have hpush : (g.insertMember id).mode ≠ .push := Mode.ne_push_of_isMesh hm
  unfold Topology.addMember
  split
  · rfl
  · rw [hg]
    refine congrArg Except.ok (hi.modifyGroup_congr hg ?_)
    dsimp only
    rw [if_neg fun hp => hpush hp.2, if_neg fun hp => hpush hp.2]

/-- The topology with the matcher of a group added. -/
def awaiting (t : Topology) (g : Group) (stem : String) (role : Role) : Topology :=
  t.withMatchers (t.matchers.insert (g.rule stem role)).2

theorem addMatcher_mesh (hg : t.group? g.id = some g) (hm : g.mode.isMesh = true)
    (stem : String) (role : Role) :
    t.addMatcher g.id stem role = .ok (g.rule stem role, t.awaiting g stem role) := by
  have hpush : ¬(role = .source ∧ g.mode = .push) := fun hp => Mode.ne_push_of_isMesh hm hp.2
  unfold Topology.addMatcher
  rw [hg]
  dsimp only
  rw [if_neg hpush]
  rfl

theorem awaiting_passes (hr : ∀ m ∈ t.matchers.toList, ¬InFamily m.group g.name)
    (x : String) : ∀ m ∈ (t.awaiting g stem .source).matchers.matching x, m.PassesBy g.name := by
  intro m hm
  obtain ⟨s, hholds, -⟩ := MatcherTable.exists_mem_matching.1 ⟨m, hm, rfl, rfl⟩
  rcases MatcherTable.holds_insert.1 hholds with ⟨bucket, hb, -, k, hk, hgroup, -⟩ | ⟨-, hgroup, hrole⟩
  · right
    rw [← hgroup]
    refine hr k ?_
    rw [MatcherTable.toList_eq]
    exact List.mem_flatMap.2 ⟨bucket, hb, hk⟩
  · exact .inl ⟨hrole, hgroup⟩

theorem awaiting_joins (t : Topology) (g : Group) {x : String} (hx : isStemOf stem x = true) :
    ∃ m ∈ (t.awaiting g stem .destination).matchers.matching x,
      m.role = .destination ∧ m.group = g.name := by
  have hholds : (t.awaiting g stem .destination).matchers.Holds stem g.name .destination :=
    MatcherTable.holds_insert.2 (.inr ⟨rfl, rfl, rfl⟩)
  obtain ⟨m, hm, hgroup, hrole⟩ := MatcherTable.exists_mem_matching.2 ⟨stem, hholds, hx⟩
  exact ⟨m, hm, hrole, hgroup⟩

/-- The name of a link that came up may be new to an interface; other names are old. -/
theorem Intact.nameOf?_linkUp (h : t.Intact) {link : Link} {x : InterfaceId} {y : String}
    (hy : (t.linkUp link).2.nameOf? x = some y) :
    t.nameOf? x = some y ∨ link.up = true ∧ y = link.name := by
  have hnext : (t.linkUp link).2 = t.resolveAll (t.bindings (.linkUp link)) := next_linkUp t link
  by_cases hne : t.bindings (.linkUp link) = []
  · rw [hnext, hne] at hy
    exact .inl hy
  · have hu : link.up = true := by
      by_contra hu
      exact hne (if_neg hu)
    have hsame := h.resolveAll_sameNames hne (bindings_linkUp link)
    rw [hnext, hsame.naming, h.nameOf?_addInterface] at hy
    by_cases hx : x = ⟨link.index⟩
    · rw [if_pos hx] at hy
      exact .inr ⟨hu, (Option.some.inj hy).symm⟩
    · rw [if_neg hx] at hy
      exact .inl hy

end Topology

namespace Node

variable {n a b : Node} {g : Group} {name text stem : String} {l : Link} {ls : List Link}
  {role : Role}

/-! ## Links that come up -/

/-- The link comes to the topology under the index of its name. -/
theorem linkUp_report (n : Node) (l : Link) :
    (n.linkUp l).1 = (n.topology.linkUp (n.normalize l)).1 := rfl

theorem linkUp_topology (n : Node) (l : Link) :
    (n.linkUp l).2.topology = (n.topology.linkUp (n.normalize l)).2 :=
  (openDevices_graph _ _).topology

theorem linkUp_matchers (n : Node) (l : Link) :
    (n.linkUp l).2.topology.matchers = n.topology.matchers := by
  rw [linkUp_topology, Topology.linkUp_matchers]

theorem normalize_alike (h : Alike a.topology b.topology) (l : Link) :
    b.normalize l = a.normalize l := by
  unfold normalize
  rw [h.eq_withMatchers]
  rfl

/-- Two nodes look alike, and go on to while links come up that are the same to both. -/
def Agree (a b : Node) : List Link → Prop
  | [] => Alike a.topology b.topology
  | l :: ls => Alike a.topology b.topology ∧ (a.linkUp l).1 = (b.linkUp l).1 ∧
      (a.linkUp l).2.Agree (b.linkUp l).2 ls

theorem Agree.alike (h : a.Agree b ls) : Alike a.topology b.topology := by
  cases ls with
  | nil => exact h
  | cons l ls => exact h.1

/-! ## Before a link matches -/

/-- Two nodes whose matchers differ for the names of one stem alone. -/
structure Twins (stem : String) (a b : Node) : Prop where
  alike : Alike a.topology b.topology
  tables : ∀ x, isStemOf stem x = false →
    b.topology.matchers.matching x = a.topology.matchers.matching x

/-- A link of another name is the same to both, and so is one that is down. -/
theorem Twins.linkUp (h : Twins stem a b) (hl : l.up = true → isStemOf stem l.name = false) :
    (a.linkUp l).1 = (b.linkUp l).1 ∧ Twins stem (a.linkUp l).2 (b.linkUp l).2 := by
  have htables : (a.normalize l).up = true →
      b.topology.matchers.matching (a.normalize l).name =
        a.topology.matchers.matching (a.normalize l).name := by
    intro hu
    rw [normalize_name]
    rw [normalize_up] at hu
    exact h.tables l.name (hl hu)
  obtain ⟨hreport, halike⟩ := h.alike.linkUp htables
  rw [linkUp_report, linkUp_report, normalize_alike h.alike]
  refine ⟨hreport.symm, ⟨?_, ?_⟩⟩
  · rw [linkUp_topology, linkUp_topology, normalize_alike h.alike]
    exact halike
  · intro x hx
    rw [linkUp_matchers, linkUp_matchers]
    exact h.tables x hx

theorem Twins.agree (h : Twins stem a b)
    (hls : ∀ l ∈ ls, l.up = true → isStemOf stem l.name = false) : a.Agree b ls := by
  induction ls generalizing a b with
  | nil => exact h.alike
  | cons l ls ih =>
    obtain ⟨hl, hrest⟩ := List.forall_mem_cons.1 hls
    obtain ⟨hreport, hnext⟩ := h.linkUp hl
    exact ⟨h.alike, hreport, ih hnext hrest⟩

/-! ## Once a link matches -/

/-- One node leaves a group alone, and the other lets every link of a stem join it. -/
structure Parted (stem : String) (g : Group) (a b : Node) : Prop extends Twins stem a b where
  intact : a.topology.Intact
  intactOther : b.topology.Intact
  group : a.topology.group? g.id = some g
  passes : ∀ x, ∀ m ∈ a.topology.matchers.matching x, m.PassesBy g.name
  joins : ∀ x, isStemOf stem x = true → ∃ m ∈ b.topology.matchers.matching x,
    m.role = .destination ∧ m.group = g.name
  strangers : ∀ x ∈ g.members, ∀ y, a.topology.nameOf? x = some y → isStemOf stem y = false

theorem group?_linkUp (hi : n.topology.Intact) (hg : n.topology.group? g.id = some g)
    (hp : ∀ x, ∀ m ∈ n.topology.matchers.matching x, m.PassesBy g.name) (l : Link) :
    (n.linkUp l).2.topology.group? g.id = some g := by
  rw [linkUp_topology]
  by_cases hu : (n.normalize l).up = true
  · rw [linkUp_snd _ _ hu]
    refine hi.resolveAll_passes hg fun p hmem => ?_
    obtain ⟨m, hm, rfl⟩ := List.mem_map.1 hmem
    exact hp _ m hm
  · unfold Topology.linkUp
    simpa [hu] using hg

theorem Parted.linkUp (h : Parted stem g a b) (hl : l.up = true → isStemOf stem l.name = false) :
    Parted stem g (a.linkUp l).2 (b.linkUp l).2 where
  toTwins := (h.toTwins.linkUp hl).2
  intact := by
    rw [linkUp_topology]
    exact h.intact.linkUp _
  intactOther := by
    rw [linkUp_topology]
    exact h.intactOther.linkUp _
  group := group?_linkUp h.intact h.group h.passes l
  passes := by
    rw [linkUp_matchers]
    exact h.passes
  joins := by
    rw [linkUp_matchers]
    exact h.joins
  strangers := by
    intro x hx y hy
    rw [linkUp_topology] at hy
    rcases h.intact.nameOf?_linkUp hy with hold | ⟨hu, rfl⟩
    · exact h.strangers x hx y hold
    · rw [normalize_up] at hu
      rw [normalize_name]
      exact hl hu

/-- A link that no member has the name or the index of is no member. -/
theorem normalize_not_mem (hi : n.topology.Intact)
    (hs : ∀ x ∈ g.members, ∀ y, n.topology.nameOf? x = some y → isStemOf stem y = false)
    (hl : isStemOf stem l.name = true) (hx : ⟨l.index⟩ ∉ g.members) :
    ⟨(n.normalize l).index⟩ ∉ g.members := by
  unfold normalize
  cases hn : n.topology.interfaceNamed? l.name with
  | none => exact hx
  | some i =>
    intro hin
    obtain ⟨id, hh, hid⟩ := Option.bind_eq_some_iff.1 hn
    obtain ⟨j, hj, rfl, hname⟩ := hi.borne l.name id hh
    have hij : i = j := by
      rw [hi.interface?_eq.2 ⟨hj, rfl⟩] at hid
      exact (Option.some.inj hid).symm
    subst hij
    have hbears : n.topology.nameOf? i.id = some l.name :=
      Option.map_eq_some_iff.2 ⟨i, hid, hname⟩
    rw [hs i.id hin l.name hbears] at hl
    cases hl

/-- The link is a member of the group at one of the nodes alone. -/
theorem Parted.not_alike (h : Parted stem g a b) (hu : l.up = true)
    (hl : isStemOf stem l.name = true) (hx : ⟨l.index⟩ ∉ g.members) :
    ¬Alike (a.linkUp l).2.topology (b.linkUp l).2.topology := by
  intro halike
  have hup : (b.normalize l).up = true := (normalize_up b l).trans hu
  obtain ⟨m, hm, hrole, hgroup⟩ := h.joins (b.normalize l).name (by rwa [normalize_name])
  have hga : g ∈ b.topology.groups := by
    rw [h.alike.groups]
    exact (h.intact.group?_eq.1 h.group).1
  have hjoined : (b.linkUp l).2.topology.HasMember g.id ⟨(b.normalize l).index⟩ := by
    rw [linkUp_topology, linkUp_snd _ _ hup]
    exact h.intactOther.resolveAll_joins hga (List.mem_map_of_mem hm) hrole hgroup
  obtain ⟨k, hk, hin⟩ := hjoined
  rw [group?_congr halike.groups, group?_linkUp h.intact h.group h.passes l] at hk
  cases hk
  rw [normalize_alike h.alike] at hin
  exact normalize_not_mem h.intact h.strangers hl hx hin

theorem Parted.not_agree (h : Parted stem g a b)
    (hx : ∀ l ∈ ls, isStemOf stem l.name = true → ⟨l.index⟩ ∉ g.members)
    (hmet : ∃ l ∈ ls, l.up = true ∧ isStemOf stem l.name = true) : ¬a.Agree b ls := by
  induction ls generalizing a b with
  | nil =>
    obtain ⟨l, hl, -⟩ := hmet
    exact absurd hl List.not_mem_nil
  | cons l ls ih =>
    intro hagree
    obtain ⟨hfirst, hrest⟩ := List.forall_mem_cons.1 hx
    by_cases hl : l.up = true ∧ isStemOf stem l.name = true
    · exact h.not_alike hl.1 hl.2 (hfirst hl.2) hagree.2.2.alike
    · have hother : l.up = true → isStemOf stem l.name = false := by
        intro hu
        by_contra hstem
        exact hl ⟨hu, by simpa using hstem⟩
      refine ih (h.linkUp hother) hrest ?_ hagree.2.2
      obtain ⟨k, hk, hmatch⟩ := hmet
      rcases List.mem_cons.1 hk with rfl | hk
      · exact absurd hmatch hl
      · exact ⟨k, hk, hmatch⟩

/-! ## Registering a wildcard -/

/-- The known links of a stem as they come to the topology. -/
def knownLinks (n : Node) (stem : String) : List Link :=
  (n.sortedLinks.filter fun l => isStemOf stem l.name).map n.normalize

theorem mem_knownLinks :
    l ∈ n.knownLinks stem ↔ ∃ k ∈ n.links, isStemOf stem k.name = true ∧ n.normalize k = l := by
  unfold knownLinks sortedLinks
  simp only [List.mem_map, List.mem_filter, List.mem_mergeSort, and_assoc]

theorem addMember_wildcard (hi : n.topology.Intact) (hg : n.topology.groupNamed? name = some g)
    (hm : g.mode.isMesh = true) (hw : wildcardStem? text = some stem) (role : Role) :
    (n.addMember name text role).1 =
        ((n.topology.awaiting g stem role).matchLinks (g.rule stem role) (n.knownLinks stem)).1.mapError
          .topology ∧
      (n.addMember name text role).2.topology =
        ((n.topology.awaiting g stem role).matchLinks (g.rule stem role) (n.knownLinks stem)).2 := by
  have hgid : n.topology.group? g.id = some g :=
    hi.group?_eq.2 ⟨(hi.groupNamed?_eq.1 hg).1, rfl⟩
  have hadd : n.addMember name text role = n.addWildcardMember g.id stem role := by
    unfold addMember
    rw [groupId?_of_named hg, hw]
  rw [hadd]
  unfold addWildcardMember
  rw [addMatcher_mesh hgid hm]
  exact ⟨rfl, (tryOpenAll_graph _ _).topology⟩

/-- A link of the stem is up, at once or later. -/
def Meets (n : Node) (stem : String) (ls : List Link) : Prop :=
  ∃ l ∈ n.links ++ ls, l.up = true ∧ isStemOf stem l.name = true

/-- A wildcard that meets no link yet is registered and does nothing. -/
theorem addMember_unmet (hi : n.topology.Intact) (hg : n.topology.groupNamed? name = some g)
    (hm : g.mode.isMesh = true) (hw : wildcardStem? text = some stem) (hno : ¬n.Meets stem [])
    (role : Role) :
    (n.addMember name text role).1 = .ok 0 ∧
      (n.addMember name text role).2.topology = n.topology.awaiting g stem role := by
  obtain ⟨hresult, htopology⟩ := addMember_wildcard hi hg hm hw role
  have hnone : (n.knownLinks stem).filter (fun l => l.up && (g.rule stem role).accepts l.name) = [] := by
    refine List.filter_eq_nil_iff.2 fun l hl hboth => hno ?_
    obtain ⟨k, hk, hstem, rfl⟩ := mem_knownLinks.1 hl
    have hup := (Bool.and_eq_true_iff.1 hboth).1
    rw [normalize_up] at hup
    exact ⟨k, List.mem_append_left _ hk, hup, hstem⟩
  have hmatch : (n.topology.awaiting g stem role).matchLinks (g.rule stem role) (n.knownLinks stem) =
      (.ok 0, n.topology.awaiting g stem role) := by
    unfold matchLinks
    rw [hnone]
    rfl
  rw [hmatch] at hresult htopology
  exact ⟨hresult, htopology⟩

/-! ## Both registrations -/

/-- A registration does the same for either role, and so do the links that come up after it. -/
def IgnoresRole (n : Node) (name text : String) (ls : List Link) : Prop :=
  (n.addMember name text .source).1 = (n.addMember name text .destination).1 ∧
    (n.addMember name text .source).2.Agree (n.addMember name text .destination).2 ls

/-- No link of the stem is a member of the group, and no wildcard can make it one. -/
structure Unclaimed (n : Node) (g : Group) (stem : String) (ls : List Link) : Prop where
  named : ∀ x ∈ g.members, ∀ y, n.topology.nameOf? x = some y → isStemOf stem y = false
  indexed : ∀ l ∈ n.links ++ ls, isStemOf stem l.name = true → ⟨l.index⟩ ∉ g.members
  rules : ∀ m ∈ n.topology.matchers.toList, ¬InFamily m.group g.name

theorem addMember_twins (hi : n.topology.Intact) (hg : n.topology.groupNamed? name = some g)
    (hm : g.mode.isMesh = true) (hw : wildcardStem? text = some stem) (hno : ¬n.Meets stem []) :
    Twins stem (n.addMember name text .source).2 (n.addMember name text .destination).2 := by
  have hs := (addMember_unmet hi hg hm hw hno .source).2
  have hd := (addMember_unmet hi hg hm hw hno .destination).2
  constructor
  · rw [hs, hd]
    exact ⟨rfl, rfl, rfl, rfl, rfl⟩
  · intro x hx
    rw [hs, hd]
    exact (MatcherTable.matching_insert_of_not hx _).trans
      (MatcherTable.matching_insert_of_not hx _).symm

theorem ignoresRole_of_not_meets (hi : n.topology.Intact)
    (hg : n.topology.groupNamed? name = some g) (hm : g.mode.isMesh = true)
    (hw : wildcardStem? text = some stem) (hno : ¬n.Meets stem ls) : n.IgnoresRole name text ls := by
  have hnone : ¬n.Meets stem [] := by
    rintro ⟨l, hl, hmatch⟩
    rw [List.append_nil] at hl
    exact hno ⟨l, List.mem_append_left _ hl, hmatch⟩
  constructor
  · rw [(addMember_unmet hi hg hm hw hnone .source).1,
      (addMember_unmet hi hg hm hw hnone .destination).1]
  · refine (addMember_twins hi hg hm hw hnone).agree fun l hl hu => ?_
    by_contra hstem
    exact hno ⟨l, List.mem_append_right _ hl, hu, by simpa using hstem⟩

/-- A known link that matches joins the mesh as a destination and not as a source. -/
theorem not_alike_of_known (hi : n.topology.Intact) (hg : n.topology.groupNamed? name = some g)
    (hm : g.mode.isMesh = true) (hw : wildcardStem? text = some stem) (hl : l ∈ n.links)
    (hu : l.up = true) (hstem : isStemOf stem l.name = true) (hx : ⟨(n.normalize l).index⟩ ∉ g.members) :
    ¬Alike (n.addMember name text .source).2.topology
      (n.addMember name text .destination).2.topology := by
  intro halike
  have hgm := (hi.groupNamed?_eq.1 hg).1
  have hawait : ∀ role, (n.topology.awaiting g stem role).Intact := fun role =>
    hi.matchers (hi.filed.insert _)
  have hpassed : (n.addMember name text .source).2.topology.group? g.id = some g := by
    rw [(addMember_wildcard hi hg hm hw .source).2, matchLinks_snd]
    refine (hawait .source).resolveAll_passes (hi.group?_eq.2 ⟨hgm, rfl⟩) fun p hp => ?_
    obtain ⟨k, -, rfl⟩ := List.mem_map.1 hp
    exact .inl ⟨rfl, rfl⟩
  have hjoined : (n.addMember name text .destination).2.topology.HasMember g.id
      ⟨(n.normalize l).index⟩ := by
    rw [(addMember_wildcard hi hg hm hw .destination).2, matchLinks_snd]
    refine (hawait .destination).resolveAll_joins hgm (List.mem_map_of_mem (List.mem_filter.2
      ⟨mem_knownLinks.2 ⟨l, hl, hstem, rfl⟩, ?_⟩)) rfl rfl
    rw [normalize_up, normalize_name, hu]
    exact hstem
  obtain ⟨k, hk, hin⟩ := hjoined
  rw [group?_congr halike.groups, hpassed] at hk
  cases hk
  exact hx hin

theorem not_ignoresRole_of_meets (h : Reachable n) (hg : n.topology.groupNamed? name = some g)
    (hm : g.mode.isMesh = true) (hw : wildcardStem? text = some stem) (hc : n.Unclaimed g stem ls)
    (hmet : n.Meets stem ls) : ¬n.IgnoresRole name text ls := by
  rintro ⟨-, hagree⟩
  have hi := (reachable_aligned h).intact
  -- A link that is up tells the roles apart at once, and any other one when it comes up.
  by_cases hknown : n.Meets stem []
  · obtain ⟨l, hl, hu, hstem⟩ := hknown
    rw [List.append_nil] at hl
    have hx := normalize_not_mem hi hc.named hstem (hc.indexed l (List.mem_append_left _ hl) hstem)
    exact not_alike_of_known hi hg hm hw hl hu hstem hx hagree.alike
  · have hreach : ∀ role, (n.addMember name text role).2.topology.Intact := fun role =>
      (reachable_aligned (h.next (.addMember name text role) rfl)).intact
    have hs := (addMember_unmet hi hg hm hw hknown .source).2
    have hd := (addMember_unmet hi hg hm hw hknown .destination).2
    have hparted : Parted stem g (n.addMember name text .source).2
        (n.addMember name text .destination).2 :=
      { addMember_twins hi hg hm hw hknown with
        intact := hreach .source
        intactOther := hreach .destination
        group := by
          rw [hs]
          exact hi.group?_eq.2 ⟨(hi.groupNamed?_eq.1 hg).1, rfl⟩
        passes := by
          rw [hs]
          exact awaiting_passes hc.rules
        joins := by
          rw [hd]
          exact fun x hx => awaiting_joins n.topology g hx
        strangers := by
          rw [hs]
          exact hc.named }
    refine hparted.not_agree (fun l hl => hc.indexed l (List.mem_append_right _ hl)) ?_ hagree
    obtain ⟨l, hl, hmatch⟩ := hmet
    rcases List.mem_append.1 hl with hl | hl
    · exact absurd ⟨l, List.mem_append_left _ hl, hmatch⟩ hknown
    · exact ⟨l, hl, hmatch⟩

/-! ## Concrete members -/

theorem addMember_concrete (hi : n.topology.Intact) (hg : n.topology.groupNamed? name = some g)
    (hm : g.mode.isMesh = true) (hw : wildcardStem? text = none) :
    n.addMember name text .source = n.addMember name text .destination := by
  have hroles : (n.addInterface text).2.topology.addMember g.id (n.addInterface text).1 .source =
      (n.addInterface text).2.topology.addMember g.id (n.addInterface text).1 .destination := by
    have hadded := hi.addInterface (n.indexFor text).1 text
    rw [addInterface_topology]
    refine addMember_mesh hadded (hadded.group?_eq.2 ⟨?_, rfl⟩) hm
    rw [addInterface_groups]
    exact (hi.groupNamed?_eq.1 hg).1
  unfold addMember
  rw [groupId?_of_named hg, hw]
  dsimp only
  unfold addConcreteMember
  dsimp only
  rw [hroles]

/-- A concrete member of a mesh is the same in either role. A wildcard is the same as long as it meets
no link; if nothing else can make its links members of the mesh, it is not once it meets one. -/
theorem mesh_roles (h : Reachable n) (hg : n.topology.groupNamed? name = some g)
    (hm : g.mode.isMesh = true) (text : String) (ls : List Link) :
    (wildcardStem? text = none → n.addMember name text .source = n.addMember name text .destination) ∧
      ∀ stem, wildcardStem? text = some stem →
        (¬n.Meets stem ls → n.IgnoresRole name text ls) ∧
        (n.Unclaimed g stem ls → n.Meets stem ls → ¬n.IgnoresRole name text ls) := by
  have hi := (reachable_aligned h).intact
  refine ⟨addMember_concrete hi hg hm, fun stem hw => ⟨ignoresRole_of_not_meets hi hg hm hw, ?_⟩⟩
  exact not_ignoresRole_of_meets h hg hm hw

/-- A link is up that a wildcard of the mesh matches. -/
theorem mesh_wildcard_tells_roles :
    ∃ n, Reachable n ∧ ∃ g, n.topology.groupNamed? "mesh" = some g ∧ g.mode.isMesh = true ∧
      ¬n.IgnoresRole "mesh" "ppp#" [] := by
  have fresh : Reachable (new { poolSize := 1, frameSize := 1 }) := .new _
  have linked := fresh.next (.setLinks [⟨"ppp0", 10, true⟩]) rfl
  have grouped := linked.next (.addGroup "mesh" .merge .classicalFlooding) rfl
  refine ⟨_, grouped, ⟨⟨1⟩, "mesh", .merge, .classicalFlooding, {}, false, false, false, none, [], none⟩,
    rfl, rfl, ?_⟩
  refine ((mesh_roles grouped rfl rfl "ppp#" []).2 "ppp" (by decide +kernel)).2 ⟨?_, ?_, ?_⟩ ?_
  · exact fun x hx => absurd hx List.not_mem_nil
  · exact fun l _ _ => List.not_mem_nil
  · exact fun m hm => absurd hm List.not_mem_nil
  · exact ⟨⟨"ppp0", 10, true⟩, by decide +kernel, rfl, by decide +kernel⟩

end Node
end MulticastRelay
