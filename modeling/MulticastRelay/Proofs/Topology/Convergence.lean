import MulticastRelay.Proofs.Topology.Spread

/-! # Links that come and go

Links come up and are bound by the matchers of a template, and go down and take along what was made
for them. However often that happened, and in whatever order, the groups and the edges are those of
the links that are up in the end.
-/
namespace MulticastRelay

def MatcherTable.Binds (t : MatcherTable) (role : Role) (name : String) : Prop :=
  ∃ m ∈ t.toList, m.role = role ∧ m.accepts name = true

namespace Topology

inductive LinkEvent where
  | up (l : Link)
  | down (l : Link)

def LinkEvent.link : LinkEvent → Link
  | up l => l
  | down l => l

def onLink (t : Topology) : LinkEvent → Topology
  | .up l => (t.linkUp l).2
  | .down l => t.removeInterface ⟨l.index⟩

/-- The links that came up and did not go down since. -/
def standing (events : List LinkEvent) : Set Link :=
  {l | ∃ before after, events = before ++ .up l :: after ∧ .down l ∉ after}

/-- The groups by name, each with its source and its members. -/
def roster (t : Topology) : Set (String × Option InterfaceId × Set InterfaceId) :=
  {r | ∃ g ∈ t.groups, r = (g.name, g.source, {m | m ∈ g.members})}

/-- The edges, each with the name of its owner. -/
def wiring (t : Topology) : Set (Edge × Option String) :=
  {w | ∃ i ∈ t.interfaces, ∃ a ∈ i.associates,
    w = ((i.id, a.target), (t.group? a.owner).map (·.name))}

/-- Of some links those that a matcher of a role accepts. -/
def matched (t : Topology) (role : Role) (up : Set Link) : Set Link :=
  {l ∈ up | t.matchers.Binds role l.name}

/-- The members of a group and the links that matchers add to them. -/
def destined (t : Topology) (g : Group) (up : Set Link) : Set InterfaceId :=
  {m | m ∈ g.members} ∪ (fun l : Link => ⟨l.index⟩) '' t.matched .destination up

/-- One push group without a source, to which all matchers belong, and no edge yet. -/
structure Seed (t : Topology) (g : Group) : Prop where
  reachable : Reachable t
  groups : t.groups = [g]
  mode : g.mode = .push
  source : g.source = none
  bare : ∀ i ∈ t.interfaces, i.associates = []
  matchers : ∀ m ∈ t.matchers.toList, m.group = g.name

/-- Links with a name and an index each of its own, none of them a member of the group. -/
structure Pluggable (links : Set Link) (g : Group) : Prop where
  up : ∀ l ∈ links, l.up = true
  names : links.InjOn Link.name
  indices : links.InjOn Link.index
  apart : ∀ l ∈ links, ⟨l.index⟩ ∉ g.members

variable {t : Topology} {g : Group} {links sources up : Set Link} {dests : Set InterfaceId}
  {events : List LinkEvent} {e : LinkEvent} {l : Link} {base : String} {role : Role}
  {table : MatcherTable}

/-! ## Links that stand -/

theorem mem_standing_concat :
    l ∈ standing (events ++ [e]) ↔ e = .up l ∨ l ∈ standing events ∧ e ≠ .down l := by
  constructor
  · rintro ⟨before, after, hsplit, hdown⟩
    rcases List.eq_nil_or_concat after with rfl | ⟨rest, d, rfl⟩
    · exact .inl (List.append_singleton_inj.1 hsplit).2
    · rw [List.concat_eq_append] at hsplit hdown
      have hsplit : events ++ [e] = (before ++ .up l :: rest) ++ [d] := by
        rw [hsplit, List.append_assoc, List.cons_append]
      obtain ⟨rfl, rfl⟩ := List.append_singleton_inj.1 hsplit
      rw [List.mem_append, not_or, List.mem_singleton] at hdown
      exact .inr ⟨⟨before, rest, rfl, hdown.1⟩, Ne.symm hdown.2⟩
  · rintro (rfl | ⟨⟨before, after, rfl, hdown⟩, hne⟩)
    · exact ⟨events, [], rfl, List.not_mem_nil⟩
    · refine ⟨before, after ++ [e], by simp, ?_⟩
      rw [List.mem_append, not_or, List.mem_singleton]
      exact ⟨hdown, Ne.symm hne⟩

theorem standing_nil : standing [] = ∅ := by
  refine Set.eq_empty_iff_forall_notMem.2 ?_
  rintro l ⟨before, after, h, -⟩
  simp at h

theorem standing_up : standing (events ++ [.up l]) = insert l (standing events) := by
  ext a
  rw [mem_standing_concat, Set.mem_insert_iff, LinkEvent.up.injEq]
  simp [eq_comm]

theorem standing_down : standing (events ++ [.down l]) = standing events \ {l} := by
  ext a
  rw [mem_standing_concat]
  simp [eq_comm]

theorem standing_subset (h : ∀ e ∈ events, e.link ∈ links) :
    standing events ⊆ links := by
  rintro l ⟨before, after, rfl, -⟩
  exact h (.up l) (by simp)

/-! ## One event -/

section Roles

variable {α : Type} {m : Matcher}

theorem union_cons_of_role (hr : m.role = role) (s : Set α) (a : α) (ms : List Matcher) :
    s ∪ {x | x = a ∧ ∃ n ∈ m :: ms, n.role = role} =
      insert a s ∪ {x | x = a ∧ ∃ n ∈ ms, n.role = role} := by
  ext x
  simp only [Set.mem_union, Set.mem_insert_iff, Set.mem_ofPred_eq, List.exists_mem_cons_iff, hr]
  tauto

theorem union_cons_of_role_ne (hr : m.role ≠ role) (s : Set α) (a : α) (ms : List Matcher) :
    s ∪ {x | x = a ∧ ∃ n ∈ m :: ms, n.role = role} =
      s ∪ {x | x = a ∧ ∃ n ∈ ms, n.role = role} := by
  simp only [List.exists_mem_cons_iff, hr, false_or]

end Roles

/-- Matchers that accept a link make it a source or a destination, or both, in any order. -/
theorem Spread.resolveAll (h : Spread table base links dests sources [] t)
    (hn : links.InjOn Link.name) (hx : links.InjOn Link.index) (hl : l ∈ links) (ms : List Matcher)
    (hms : ∀ m ∈ ms, m.group = base) :
    Spread table base links (dests ∪ {x | x = ⟨l.index⟩ ∧ ∃ m ∈ ms, m.role = .destination})
      (sources ∪ {a | a = l ∧ ∃ m ∈ ms, m.role = .source}) [] (t.resolveAll (ms.map (·, l))) := by
  induction ms generalizing t dests sources with
  | nil => simpa [Topology.resolveAll] using h
  | cons m ms ih =>
    have hm := hms m List.mem_cons_self
    have hms := fun n hn => hms n (List.mem_cons_of_mem m hn)
    cases hr : m.role with
    | source =>
      rw [union_cons_of_role hr, union_cons_of_role_ne (by simp [hr])]
      exact ih (h.resolve_source hn hx hl hm hr) hms
    | destination =>
      rw [union_cons_of_role hr, union_cons_of_role_ne (by simp [hr])]
      exact ih (h.resolve_destination hx hm hr) hms

theorem Spread.linkUp (h : Spread table base links dests sources [] t)
    (hn : links.InjOn Link.name) (hx : links.InjOn Link.index) (hl : l ∈ links) (hu : l.up = true)
    (ht : ∀ m ∈ table.toList, m.group = base) :
    Spread table base links (dests ∪ {x | x = ⟨l.index⟩ ∧ table.Binds .destination l.name})
      (sources ∪ {a | a = l ∧ table.Binds .source l.name}) [] (t.linkUp l).2 := by
  have hmatching : ∀ m, m ∈ t.matchers.matching l.name ↔
      m ∈ table.toList ∧ m.accepts l.name = true := by
    intro m
    rw [← h.matchers]
    exact h.intact.filed.mem_matching
  have hbinds : ∀ role, (∃ m ∈ t.matchers.matching l.name, m.role = role) ↔
      table.Binds role l.name := by
    intro role
    constructor
    · rintro ⟨m, hm, hr⟩
      exact ⟨m, ((hmatching m).1 hm).1, hr, ((hmatching m).1 hm).2⟩
    · rintro ⟨m, hm, hr, ha⟩
      exact ⟨m, (hmatching m).2 ⟨hm, ha⟩, hr⟩
  have hall := h.resolveAll hn hx hl (t.matchers.matching l.name)
    fun m hm => ht m ((hmatching m).1 hm).1
  simp only [hbinds] at hall
  rw [linkUp_snd t l hu]
  exact hall

/-! ## What stands after each event -/

theorem matched_insert :
    t.matched role (insert l up) = t.matched role up ∪ {a | a = l ∧ t.matchers.Binds role l.name} := by
  ext a
  simp only [matched, Set.mem_ofPred_eq, Set.mem_insert_iff, Set.mem_union]
  constructor
  · rintro ⟨rfl | ha, hb⟩
    · exact .inr ⟨rfl, hb⟩
    · exact .inl ⟨ha, hb⟩
  · rintro (⟨ha, hb⟩ | ⟨rfl, hb⟩)
    · exact ⟨.inr ha, hb⟩
    · exact ⟨.inl rfl, hb⟩

theorem matched_sdiff : t.matched role (up \ {l}) = t.matched role up \ {l} := by
  ext a
  simp only [matched, Set.mem_ofPred_eq, Set.mem_sdiff]
  tauto

theorem destined_insert :
    t.destined g (insert l up) =
      t.destined g up ∪ {x | x = ⟨l.index⟩ ∧ t.matchers.Binds .destination l.name} := by
  unfold destined
  rw [matched_insert, Set.image_union, Set.union_assoc]
  congr 2
  ext x
  simp only [Set.mem_image, Set.mem_ofPred_eq]
  constructor
  · rintro ⟨a, ⟨rfl, hb⟩, rfl⟩
    exact ⟨rfl, hb⟩
  · rintro ⟨rfl, hb⟩
    exact ⟨l, ⟨rfl, hb⟩, rfl⟩

theorem destined_sdiff (hp : Pluggable links g) (hup : up ⊆ links) (hl : l ∈ links) :
    t.destined g (up \ {l}) = t.destined g up \ {⟨l.index⟩} := by
  ext x
  unfold destined
  rw [matched_sdiff]
  -- The interface that goes belongs to no other link and was no member before.
  constructor
  · rintro (hx | ⟨a, ⟨ha, hne⟩, rfl⟩)
    · exact ⟨.inl hx, fun he => hp.apart l hl (he ▸ hx)⟩
    · exact ⟨.inr ⟨a, ha, rfl⟩, fun he => hne (hp.indices (hup ha.1) hl (InterfaceId.mk.inj he))⟩
  · rintro ⟨hx | ⟨a, ha, rfl⟩, hne⟩
    · exact .inl hx
    · refine .inr ⟨a, ⟨ha, ?_⟩, rfl⟩
      rintro rfl
      exact hne rfl

/-! ## Runs -/

theorem Seed.spread (h : Seed t g) (links : Set Link) :
    Spread t.matchers g.name links {m | m ∈ g.members} ∅ [] t := by
  have hi := h.reachable.intact
  have hserves : g.Serves g.name {m | m ∈ g.members} none :=
    ⟨rfl, h.mode, h.source, fun m => by simp [h.source], fun hne => absurd rfl hne⟩
  refine ⟨hi, ⟨fun k hk => ?_, fun r hr => ?_⟩, ⟨fun x y o ho => ?_, fun k hk _ e he => ?_⟩, rfl,
    Set.empty_subset links⟩
  · rw [h.groups, List.mem_singleton] at hk
    subst hk
    exact ⟨none, fun a ha => (Option.not_mem_none a ha).elim, hserves⟩
  · cases r with
    | none => exact ⟨g, h.groups ▸ List.mem_singleton_self g, hserves⟩
    | some a => exact absurd (hr a rfl) (Set.notMem_empty a)
  · obtain ⟨i, him, -, ha⟩ := hi.owner?_eq.1 ho
    rw [h.bare i him] at ha
    exact absurd ha List.not_mem_nil
  · rw [h.groups, List.mem_singleton] at hk
    subst hk
    obtain ⟨a, hr, -⟩ := hserves.mem_wanted.1 he
    cases hr

/-- After any events the family is that of the links that stand. -/
theorem Seed.spread_foldl (h : Seed t g) (hp : Pluggable links g) :
    ∀ events : List LinkEvent, (∀ e ∈ events, e.link ∈ links) →
      Spread t.matchers g.name links (t.destined g (standing events))
        (t.matched .source (standing events)) [] (events.foldl onLink t) := by
  intro events
  induction events using List.reverseRecOn with
  | nil =>
    intro _
    have hs := h.spread links
    rw [standing_nil]
    simpa [destined, matched] using hs
  | append_singleton events e ih =>
    intro he
    have hu := ih fun d hd => he d (List.mem_append_left _ hd)
    have hup := standing_subset fun d hd => he d (List.mem_append_left _ hd)
    have hl := he e (by simp)
    rw [List.foldl_append, List.foldl_cons, List.foldl_nil]
    cases e with
    | up l =>
      rw [standing_up, destined_insert, matched_insert]
      exact hu.linkUp hp.names hp.indices hl (hp.up l hl) h.matchers
    | down l =>
      have hl : l ∈ links := hl
      rw [standing_down, destined_sdiff hp hup hl, matched_sdiff]
      exact hu.removeInterface hp.indices hl

/-! ## What a family shows -/

theorem Intact.mem_wiring (h : Intact t) {w : Edge × Option String} :
    w ∈ t.wiring ↔
      ∃ x y o, t.owner? x y = some o ∧ w = ((x, y), (t.group? o).map (·.name)) := by
  constructor
  · rintro ⟨i, hi, a, ha, rfl⟩
    exact ⟨i.id, a.target, a.owner, h.owner?_eq.2 ⟨i, hi, rfl, ha⟩, rfl⟩
  · rintro ⟨x, y, o, ho, rfl⟩
    obtain ⟨i, hi, rfl, ha⟩ := h.owner?_eq.1 ho
    exact ⟨i, hi, ⟨o, y⟩, ha, rfl⟩

theorem template_entry (h : g.Serves base dests none) :
    (g.name, g.source, {m | m ∈ g.members}) = (base, none, dests) := by
  have hm : {m | m ∈ g.members} = dests := by
    ext m
    simpa [h.source] using h.members m
  rw [h.name, h.source, hm]
  rfl

theorem instance_entry (h : g.Serves base dests (some l)) :
    (g.name, g.source, {m | m ∈ g.members}) =
      (instanceName base l.name, some ⟨l.index⟩, insert ⟨l.index⟩ dests) := by
  have hm : {m | m ∈ g.members} = insert ⟨l.index⟩ dests := by
    ext m
    simpa [h.source, or_comm, eq_comm] using h.members m
  rw [h.name, h.source, hm]
  rfl

theorem Spread.roster_eq (h : Spread table base links dests sources [] t) :
    t.roster = insert (base, none, dests)
      ((fun l : Link => (instanceName base l.name, some ⟨l.index⟩, insert ⟨l.index⟩ dests)) ''
        sources) := by
  ext r
  constructor
  · rintro ⟨g, hg, rfl⟩
    obtain ⟨s, hs, hserves⟩ := h.family.each g hg
    cases s with
    | none => exact .inl (template_entry hserves)
    | some l => exact .inr ⟨l, hs l rfl, (instance_entry hserves).symm⟩
  · rintro (rfl | ⟨l, hl, rfl⟩)
    · obtain ⟨g, hg, hserves⟩ := h.family.template
      exact ⟨g, hg, (template_entry hserves).symm⟩
    · obtain ⟨g, hg, hserves⟩ := h.family.ofLink hl
      exact ⟨g, hg, (instance_entry hserves).symm⟩

theorem Spread.wiring_eq (h : Spread table base links dests sources [] t) :
    t.wiring = {w | ∃ l ∈ sources, ∃ d ∈ dests, d ≠ ⟨l.index⟩ ∧
      w = ((⟨l.index⟩, d), some (instanceName base l.name))} := by
  ext w
  rw [h.intact.mem_wiring]
  constructor
  · rintro ⟨x, y, o, ho, rfl⟩
    obtain ⟨g, hg, rfl, he⟩ := h.allotted.called x y o ho
    obtain ⟨s, hs, hserves⟩ := h.family.each g hg
    obtain ⟨l, rfl, rfl, hd, hne⟩ := hserves.mem_wanted.1 he
    refine ⟨l, hs l rfl, y, hd, hne, ?_⟩
    rw [h.intact.group?_eq.2 ⟨hg, rfl⟩, Option.map_some, hserves.name]
    rfl
  · rintro ⟨l, hl, d, hd, hne, rfl⟩
    obtain ⟨g, hg, hserves⟩ := h.family.ofLink hl
    have he : (⟨l.index⟩, d) ∈ g.wanted := hserves.mem_wanted.2 ⟨l, rfl, rfl, hd, hne⟩
    refine ⟨⟨l.index⟩, d, g.id, h.allotted.made g hg List.not_mem_nil _ he, ?_⟩
    rw [h.intact.group?_eq.2 ⟨hg, rfl⟩, Option.map_some, hserves.name]
    rfl

/-- After any events of links the template has the links that stand as destinations, each that
stands as a source has a group of its own, and a source is joined to exactly the other members of
its group. -/
theorem links_converge (h : Seed t g) (hp : Pluggable links g)
    (he : ∀ e ∈ events, e.link ∈ links) :
    (events.foldl onLink t).roster =
        insert (g.name, none, t.destined g (standing events))
          ((fun l : Link => (instanceName g.name l.name, some ⟨l.index⟩,
            insert ⟨l.index⟩ (t.destined g (standing events)))) ''
              t.matched .source (standing events)) ∧
      (events.foldl onLink t).wiring =
        {w | ∃ l ∈ t.matched .source (standing events), ∃ d ∈ t.destined g (standing events),
          d ≠ ⟨l.index⟩ ∧ w = ((⟨l.index⟩, d), some (instanceName g.name l.name))} := by
  have hs := h.spread_foldl hp events he
  exact ⟨hs.roster_eq, hs.wiring_eq⟩

/-- A dial-in template with one member, whose matchers take links as sources, as destinations, and
one link as both. -/
def dialIn : Topology :=
  [Event.addInterface ⟨1⟩ "wlan0", .addGroup "ppp" .push .classicalFlooding,
    .addMember ⟨1⟩ ⟨1⟩ .destination, .addMatcher ⟨1⟩ "ppp" .source,
    .addMatcher ⟨1⟩ "eth" .destination, .addMatcher ⟨1⟩ "ppp1" .destination].foldl next empty

def dialInGroup : Group :=
  { id := ⟨1⟩, name := "ppp", mode := .push, relayType := .classicalFlooding, isTemplate := true
    members := [⟨1⟩] }

def dialInLinks : Set Link := {⟨"ppp0", 10, true⟩, ⟨"ppp1", 11, true⟩, ⟨"eth0", 20, true⟩}

/-- The first link goes down and comes up twice, and the destination goes down for good. -/
def flapping : List LinkEvent :=
  [.up ⟨"ppp0", 10, true⟩, .up ⟨"eth0", 20, true⟩, .up ⟨"ppp1", 11, true⟩,
    .down ⟨"ppp0", 10, true⟩, .up ⟨"ppp0", 10, true⟩, .up ⟨"ppp0", 10, true⟩,
    .down ⟨"eth0", 20, true⟩]

theorem dialIn_seed : Seed dialIn dialInGroup :=
  ⟨reachable_foldl .empty _, by decide +kernel, rfl, rfl, by decide +kernel, by decide +kernel⟩

theorem dialInLinks_pluggable : Pluggable dialInLinks dialInGroup where
  up l hl := by rcases hl with rfl | rfl | rfl <;> rfl
  names := by
    rintro a (rfl | rfl | rfl) b (rfl | rfl | rfl) h <;> first | rfl | exact absurd h (by decide)
  indices := by
    rintro a (rfl | rfl | rfl) b (rfl | rfl | rfl) h <;> first | rfl | exact absurd h (by decide)
  apart l hl := by rcases hl with rfl | rfl | rfl <;> decide

/-- The link that came up again relays to the one that is source and destination, and nothing relays
to the destination that went. -/
theorem flapping_converges :
    ((⟨10⟩, ⟨11⟩), some "ppp:ppp0") ∈ (flapping.foldl onLink dialIn).wiring ∧
      ∀ w ∈ (flapping.foldl onLink dialIn).wiring, w.1.2 ≠ ⟨20⟩ := by
  have he : ∀ e ∈ flapping, e.link ∈ dialInLinks := by
    simp [flapping, dialInLinks, LinkEvent.link]
  obtain ⟨-, hw⟩ := links_converge dialIn_seed dialInLinks_pluggable he
  rw [hw]
  constructor
  · refine ⟨⟨"ppp0", 10, true⟩, ⟨⟨flapping.take 5, flapping.drop 6, rfl, by simp [flapping]⟩, ?_⟩,
      ⟨11⟩, .inr ⟨⟨"ppp1", 11, true⟩, ⟨⟨flapping.take 2, flapping.drop 3, rfl, by simp [flapping]⟩,
        ?_⟩, rfl⟩, by decide, by decide⟩
    · exact ⟨⟨"ppp", "ppp", .source, .push, .classicalFlooding⟩, by decide +kernel, rfl, by decide⟩
    · exact ⟨⟨"ppp1", "ppp", .destination, .push, .classicalFlooding⟩, by decide +kernel, rfl,
        by decide⟩
  · rintro _ ⟨l, -, d, hd | ⟨a, ⟨ha, -⟩, rfl⟩, -, rfl⟩
    · rw [List.mem_singleton.1 hd]
      change (⟨1⟩ : InterfaceId) ≠ ⟨20⟩
      decide
    · intro hid
      have hsplit : flapping = flapping.take 6 ++ [.down ⟨"eth0", 20, true⟩] := rfl
      have hin := standing_subset he ha
      rw [hsplit, standing_down] at ha
      rcases hin with rfl | rfl | rfl
      · cases hid
      · cases hid
      · exact ha.2 rfl

end Topology
end MulticastRelay
