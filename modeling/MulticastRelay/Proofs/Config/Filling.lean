import MulticastRelay.Proofs.Config.Standing

/-! # Filling a group

The operations that apply one entry: the group is registered, takes a source, and takes members one
by one. Each brings a node from the portrait of the entry so far to that of the entry with one line
more.
-/
namespace MulticastRelay.Config

open MulticastRelay.Topology

variable {links : List Link} {top : Nat} {es : List GroupEntry} {seed : GroupEntry → Set String}
  {B : Set Binding} {t u : Topology} {n m : Node} {e e₁ e₂ : GroupEntry} {ψ : Figure → Figure}
  {name x s stem : String} {id : InterfaceId} {gid : GroupId} {g : Group} {role : Role}
  {mode : Mode}

/-! ## Topologies -/

/-- What the last entry may change into when its group changes by `ψ`. -/
structure Revises (seed : GroupEntry → Set String) (B : Set Binding) (ψ : Figure → Figure)
    (e₁ e₂ : GroupEntry) : Prop where
  name : e₂.name = e₁.name
  seed : seed e₂ = seed e₁
  plain : ψ (plain e₁ B) = plain e₂ B

theorem asks_append {stem group : String} {role : Role} :
    (∃ f ∈ es ++ [e], f.name = group ∧ f.Asks stem role) ↔
      (∃ f ∈ es, f.name = group ∧ f.Asks stem role) ∨ e.name = group ∧ e.Asks stem role := by
  constructor
  · rintro ⟨f, hf, h⟩
    rcases List.mem_append.1 hf with hf | hf
    · exact .inl ⟨f, hf, h⟩
    · cases List.mem_singleton.1 hf
      exact .inr h
  · rintro (⟨f, hf, h⟩ | h)
    · exact ⟨f, List.mem_append_left _ hf, h⟩
    · exact ⟨e, List.mem_append_right _ (List.mem_singleton_self e), h⟩

theorem Depicts.revise (h : Depicts links top (es ++ [e₁]) seed B t) (ha : Apart (es ++ [e₁]))
    (hr : Revises seed B ψ e₁ e₂) (hasks : ∀ p r, e₂.Asks p r ↔ e₁.Asks p r)
    (hd : Draws t [] (Figure.when (· = e₁.name) ψ '' t.picture) u) :
    Depicts links top (es ++ [e₂]) seed B u := by
  rw [h.picture, revise_portrait ha hr.name hr.seed hr.plain] at hd
  refine h.redraw hd fun p group r => ?_
  rw [asks_append, asks_append, hr.name, hasks p r]

theorem Depicts.register {m : Matcher} (h : Depicts links top (es ++ [e₁]) seed B t)
    (ha : Apart (es ++ [e₁])) (hr : Revises seed B ψ e₁ e₂) (hm : m.group = e₁.name)
    (hasks : ∀ p r, e₂.Asks p r ↔ e₁.Asks p r ∨ p = m.stem ∧ r = m.role)
    (hd : Draws t [] (Figure.when (· = e₁.name) ψ '' t.picture) u) :
    Depicts links top (es ++ [e₂]) seed B { u with matchers := (t.matchers.insert m).2 } where
  settled :=
    ⟨⟨hd.sound.toCatalogued.congr rfl rfl rfl, hd.sound.ids, hd.sound.names, hd.sound.present,
      hd.sound.sourced⟩, ⟨hd.wired.called, hd.wired.made⟩⟩
  picture := by
    have hp : u.picture = portrait (es ++ [e₂]) seed B := by
      rw [hd.picture, h.picture]
      exact revise_portrait ha hr.name hr.seed hr.plain
    exact hp
  rules p group r := by
    rw [MatcherTable.holds_insert, h.rules p group r, asks_append, asks_append, hr.name, hasks p r,
      hm, or_assoc]
    refine or_congr_right ?_
    constructor
    · rintro (⟨hn, hp⟩ | ⟨hp, hn, hq⟩)
      · exact ⟨hn, .inl hp⟩
      · exact ⟨hn.symm, .inr ⟨hp, hq⟩⟩
    · rintro ⟨hn, hp | ⟨hp, hq⟩⟩
      · exact .inl ⟨hn, hp⟩
      · exact .inr ⟨hp, hn.symm, hq⟩
  placed := h.placed.of_naming hd.naming

theorem Depicts.addGroup (h : Depicts links top es seed B t) (ha : Apart (es ++ [e]))
    (hB : ∀ role, boundTo B e.name role = ∅) (relay : RelayType) :
    Depicts links top (es ++ [e.bare]) seed B (t.addGroup e.name e.modeRead relay).2 := by
  have hfree : ∀ F ∈ t.picture, F.name ≠ e.name := fun F hF => name_ne_of_last ha (h.picture ▸ hF)
  have hd := addGroup_draws h.settled hfree e.modeRead relay
  rw [h.picture, ← portrait_bare hB] at hd
  refine h.redraw hd fun p group r => ?_
  rw [asks_append]
  exact ⟨fun hor => hor.resolve_right fun hand => GroupEntry.not_asks_bare hand.2, .inl⟩

theorem Depicts.exists_group (h : Depicts links top (es ++ [e]) seed B t) :
    ∃ g ∈ t.groups, t.figure g = plain e B := by
  have hin : plain e B ∈ portrait (es ++ [e]) seed B :=
    ⟨e, List.mem_append_right _ (List.mem_singleton_self e), .inl rfl⟩
  rw [← h.picture] at hin
  exact hin

/-! ## Nodes -/

theorem addInterface_groups (n : Node) (name : String) :
    (n.addInterface name).2.topology.groups = n.topology.groups := by
  unfold Node.addInterface
  dsimp only
  rw [(Node.ensureStation_graph _ _ _).topology]
  dsimp only
  rw [Topology.addInterface_groups]
  unfold Node.indexFor
  split
  · rfl
  · split <;> rfl

theorem Standing.groupId?_eq (h : Standing links es seed B n) (hg : g ∈ n.topology.groups) :
    n.groupId? g.name = .ok g.id :=
  Node.groupId?_of_named (h.depicts.settled.sound.groupNamed?_eq.2 ⟨hg, rfl⟩)

/-- An interface joins the group of the last entry, as `ψ` says. -/
theorem Standing.addConcreteMember (h : Standing links (es ++ [e₁]) seed B n) (hl : LinkNames links)
    (ha : Apart (es ++ [e₁])) (hr : Revises seed B ψ e₁ e₂)
    (hasks : ∀ p r, e₂.Asks p r ↔ e₁.Asks p r) (hg : g ∈ n.topology.groups) (hn : g.name = e₁.name)
    (hadd : ∀ t id, Settled t → t.nameOf? id = some x → g ∈ t.groups →
      ∃ u, t.addMember g.id id role = .ok u ∧
        Draws t [g.id] (Figure.when (· = g.name) ψ '' t.picture) u)
    (ht : ∀ y, (n.addConcreteMember g.id x role).1 ≠ .error (.transport y)) :
    Standing links (es ++ [e₂]) seed B (n.addConcreteMember g.id x role).2 ∧
      (n.addConcreteMember g.id x role).2.links = n.links := by
  obtain ⟨hi, hlinks, hx⟩ := h.addInterface hl x
  have hgroups := addInterface_groups n x
  unfold Node.addConcreteMember at ht ⊢
  cases hc : n.addInterface x with
  | mk id k =>
    rw [hc] at hi hlinks hx hgroups ht
    obtain ⟨u, hu, hd⟩ := hadd k.topology id hi.depicts.settled hx (hgroups.symm ▸ hg)
    dsimp only at hu ht ⊢
    rw [hu] at ht ⊢
    dsimp only at ht ⊢
    have ho := Node.openDevices_graph { k with topology := u } id
    cases hopen : Node.openDevices { k with topology := u } id with
    | mk r j =>
      rw [hopen] at ho ht
      cases r with
      | error e =>
        obtain ⟨y, rfl⟩ := Node.openDevices_error hopen
        exact absurd rfl (ht y)
      | ok _ =>
        have hdraws : Draws k.topology [] (Figure.when (· = e₁.name) ψ '' k.topology.picture)
            (j.topology.associate g.id).2 := by
          rw [ho.topology, ← hn]
          exact hd.associate
        have hdep := hi.depicts.revise ha hr hasks hdraws
        dsimp only
        refine ⟨⟨?_, ?_, ?_⟩, ho.links.trans hlinks⟩
        · exact (congrArg _ ho.links).trans hi.known
        · exact ho.lastSynthetic ▸ hi.made
        · have hlast : j.lastSynthetic = k.lastSynthetic := ho.lastSynthetic
          exact hlast ▸ hdep

/-- The scan of a node binds the links that are up. -/
theorem Standing.matchLinks {m : Matcher} (h : Standing links es seed B n) (hl : LinkNames links)
    (ha : Apart es) (he : e ∈ es) (hm : m.group = e.name) (hs : m.role = .source → Seeds seed e) :
    Depicts links n.lastSynthetic es seed (B ∪ scan e.name m.stem m.role (n.links.filter (·.up)))
      (n.topology.matchLinks m
        ((n.sortedLinks.filter fun l => m.accepts l.name).map n.normalize)).2 := by
  have hin : ∀ l ∈ n.sortedLinks.filter (fun l => m.accepts l.name), l ∈ n.links := fun l hin =>
    List.mem_mergeSort.1 (List.mem_filter.1 hin).1
  have hsame : (n.sortedLinks.filter fun l => m.accepts l.name).map n.normalize =
      n.sortedLinks.filter fun l => m.accepts l.name :=
    (List.map_congr_left fun l hl => h.normalize_eq (h.listed (hin l hl))).trans (List.map_id _)
  have hscan : scan e.name m.stem m.role
      ((n.sortedLinks.filter fun l => m.accepts l.name).filter (·.up)) =
      scan e.name m.stem m.role (n.links.filter (·.up)) := by
    ext b
    constructor
    · rintro ⟨l, hmem, hstem, hb⟩
      obtain ⟨hmem, hup⟩ := List.mem_filter.1 hmem
      exact ⟨l, List.mem_filter.2 ⟨hin l hmem, hup⟩, hstem, hb⟩
    · rintro ⟨l, hmem, hstem, hb⟩
      obtain ⟨hmem, hup⟩ := List.mem_filter.1 hmem
      exact ⟨l, List.mem_filter.2 ⟨List.mem_filter.2 ⟨List.mem_mergeSort.2 hmem, hstem⟩, hup⟩,
        hstem, hb⟩
  rw [hsame, ← hscan]
  exact h.depicts.matchLinks hl h.made ha he hm hs fun l hmem => h.listed (hin l hmem)

/-- A wildcard is registered with the group of the last entry, and the links that are up are
scanned. -/
theorem Standing.addWildcardMember (h : Standing links (es ++ [e₁]) seed B n) (hl : LinkNames links)
    (ha : Apart (es ++ [e₁])) (hr : Revises seed B ψ e₁ e₂)
    (hasks : ∀ p r, e₂.Asks p r ↔ e₁.Asks p r ∨ p = stem ∧ r = role)
    (hadd : ∃ m u, n.topology.addMatcher gid stem role =
        .ok (m, { u with matchers := (n.topology.matchers.insert m).2 }) ∧
      m.stem = stem ∧ m.group = e₁.name ∧ m.role = role ∧
      Draws n.topology [] (Figure.when (· = e₁.name) ψ '' n.topology.picture) u)
    (hs : role = .source → Seeds seed e₂) :
    Standing links (es ++ [e₂]) seed (B ∪ scan e₁.name stem role (n.links.filter (·.up)))
        (n.addWildcardMember gid stem role).2 ∧
      (n.addWildcardMember gid stem role).2.links = n.links := by
  obtain ⟨m, u, hm, rfl, hgroup, rfl, hd⟩ := hadd
  have hreg : Standing links (es ++ [e₂]) seed B
      { n with topology := { u with matchers := (n.topology.matchers.insert m).2 } } :=
    ⟨h.known, h.made, h.depicts.register ha hr hgroup hasks hd⟩
  have hmatch := hreg.matchLinks hl (ha.revise hr.name)
    (List.mem_append_right _ (List.mem_singleton_self e₂)) (hgroup.trans hr.name.symm) hs
  rw [hr.name] at hmatch
  unfold Node.addWildcardMember
  rw [hm]
  have hg := fun (ls : List Link) (k : Node) =>
    (Node.tryOpenAll_graph ls k).trans (Node.syncCapture_graph _)
  exact ⟨Standing.of_graph (hg _ _) ⟨h.known, h.made, hmatch⟩, (hg _ _).links⟩

/-! ## Entries -/

/-- A node after some entries were applied in full over a table of links. Instances made meanwhile
were made before their templates had members. -/
structure Applied (links : List Link) (es : List GroupEntry) (n : Node) : Prop where
  standing : Standing links es (fun _ => ∅) (bound es (links.filter (·.up))) n
  links : n.links = links

theorem Applied.addGroup (h : Applied links es n) (ha : Apart (es ++ [e])) (relay : RelayType) :
    Applied links (es ++ [e.bare]) (n.addGroup e.name e.modeRead relay).2 where
  standing := by
    have hbare : bound [e.bare] (links.filter (·.up)) = ∅ := by
      refine Set.eq_empty_of_forall_notMem fun b hb => ?_
      obtain ⟨f, hf, l, -, p, r, hasks, -⟩ := hb
      cases List.mem_singleton.1 hf
      exact GroupEntry.not_asks_bare hasks
    rw [bound_append, hbare, Set.union_empty]
    exact ⟨h.standing.known, h.standing.made,
      h.standing.depicts.addGroup ha (fun _ => boundTo_bound_last ha) relay⟩
  links := h.links

theorem Applied.setGroupPolicy {policy : GroupPolicy} {tunnel resequence : Bool}
    (h : Applied links es n)
    (hm : n.setGroupPolicy name policy tunnel resequence = .ok m) : Applied links es m := by
  have hs := h.standing.depicts
  unfold Node.setGroupPolicy Node.groupId? at hm
  cases hg : n.topology.groupNamed? name with
  | none =>
    rw [hg] at hm
    cases hm
  | some g =>
    rw [hg] at hm
    cases hm
    obtain ⟨hg, -⟩ := hs.settled.sound.groupNamed?_eq.1 hg
    have hd := modifyGroup_draws_self (f := fun g => { g with policy, tunnel, resequence })
      hs.settled hg
      rfl rfl rfl rfl rfl rfl
    rw [hs.picture] at hd
    exact ⟨⟨h.standing.known, h.standing.made, hs.redraw hd fun _ _ _ => Iff.rfl⟩, h.links⟩

theorem Applied.addConcreteMember (h : Applied links (es ++ [e₁]) n) (hl : LinkNames links)
    (ha : Apart (es ++ [e₁]))
    (hr : Revises (fun _ => ∅) (bound (es ++ [e₁]) (links.filter (·.up))) ψ e₁ e₂)
    (hasks : ∀ p r, e₂.Asks p r ↔ e₁.Asks p r) (hg : g ∈ n.topology.groups) (hn : g.name = e₁.name)
    (hadd : ∀ t id, Settled t → t.nameOf? id = some x → g ∈ t.groups →
      ∃ u, t.addMember g.id id role = .ok u ∧
        Draws t [g.id] (Figure.when (· = g.name) ψ '' t.picture) u)
    (ht : ∀ y, (n.addConcreteMember g.id x role).1 ≠ .error (.transport y)) :
    Applied links (es ++ [e₂]) (n.addConcreteMember g.id x role).2 := by
  obtain ⟨hst, hlinks⟩ := h.standing.addConcreteMember hl ha hr hasks hg hn hadd ht
  rw [← bound_same hr.name hasks] at hst
  exact ⟨hst, hlinks.trans h.links⟩

theorem Applied.addWildcardMember (h : Applied links (es ++ [e₁]) n) (hl : LinkNames links)
    (ha : Apart (es ++ [e₁]))
    (hr : Revises (fun _ => ∅) (bound (es ++ [e₁]) (links.filter (·.up))) ψ e₁ e₂)
    (hasks : ∀ p r, e₂.Asks p r ↔ e₁.Asks p r ∨ p = stem ∧ r = role)
    (hadd : ∃ m u, n.topology.addMatcher gid stem role =
        .ok (m, { u with matchers := (n.topology.matchers.insert m).2 }) ∧
      m.stem = stem ∧ m.group = e₁.name ∧ m.role = role ∧
      Draws n.topology [] (Figure.when (· = e₁.name) ψ '' n.topology.picture) u)
    (hs : role = .source → Seeds (fun _ => ∅) e₂) :
    Applied links (es ++ [e₂]) (n.addWildcardMember gid stem role).2 := by
  obtain ⟨hst, hlinks⟩ := h.standing.addWildcardMember hl ha hr hasks hadd hs
  rw [h.links, ← bound_more hr.name hasks] at hst
  exact ⟨hst, hlinks.trans h.links⟩

/-- The source of a push group, a name or a wildcard, is applied to the empty group. -/
theorem Applied.addSource (h : Applied links (es ++ [e.bare]) n) (hl : LinkNames links)
    (ha : Apart (es ++ [e])) (hpush : e.modeRead = .push) (hs : e.source = some s)
    (ht : ∀ y, (n.addMember e.name s .source).1 ≠ .error (.transport y)) :
    Applied links (es ++ [e.withMembers []]) (n.addMember e.name s .source).2 := by
  have ha : Apart (es ++ [e.bare]) := ha.revise rfl
  obtain ⟨g, hg, hfig⟩ := h.standing.depicts.exists_group
  have hname : g.name = e.name := congrArg Figure.name hfig
  have hmode : g.mode = .push := (congrArg Figure.mode hfig).trans hpush
  have hnone : g.source = none :=
    (h.standing.depicts.settled.sound.source_none hg).1 (congrArg Figure.source hfig)
  have hid := h.standing.groupId?_eq hg
  rw [hname] at hid
  unfold Node.addMember at ht ⊢
  rw [hid] at ht ⊢
  cases hw : wildcardStem? s with
  | none =>
    rw [hw] at ht
    have hasks : ∀ p r, (e.withMembers []).Asks p r ↔ e.bare.Asks p r := fun p r =>
      iff_of_false (GroupEntry.asks_named_source hs hw) GroupEntry.not_asks_bare
    have hr : Revises (fun _ => ∅) (bound (es ++ [e.bare]) (links.filter (·.up)))
        (Figure.aim s) e.bare (e.withMembers []) := ⟨rfl, rfl, plain_aim hs hw⟩
    exact h.addConcreteMember hl ha hr hasks hg hname
      (fun t id ht hx hin => addMember_source ht hx hin hmode hnone) ht
  | some stem =>
    have hasks : ∀ p r, (e.withMembers []).Asks p r ↔ e.bare.Asks p r ∨ p = stem ∧ r = .source :=
      fun p r => by
      rw [GroupEntry.asks_wildcard_source hs hw]
      exact ⟨.inr, fun h => h.resolve_left GroupEntry.not_asks_bare⟩
    obtain ⟨m, u, hm, hstem, hgroup, hrole, hd⟩ :=
      addMatcher_source h.standing.depicts.settled hg hmode hnone stem
    rw [hname] at hd hgroup
    have hr : Revises (fun _ => ∅) (bound (es ++ [e.bare]) (links.filter (·.up)))
        Figure.makeTemplate e.bare (e.withMembers []) := ⟨rfl, rfl, plain_makeTemplate hs hw⟩
    exact h.addWildcardMember hl ha hr hasks ⟨m, u, hm, hstem, hgroup, hrole, hd⟩ fun _ =>
      ⟨hpush, (GroupEntry.named_wildcard_source hs hw).symm⟩

theorem Applied.addMember {ms : List String} (h : Applied links (es ++ [e.withMembers ms]) n)
    (hl : LinkNames links) (ha : Apart (es ++ [e]))
    (ht : ∀ y, (n.addMember e.name x .destination).1 ≠ .error (.transport y)) :
    Applied links (es ++ [e.withMembers (ms ++ [x])]) (n.addMember e.name x .destination).2 := by
  have ha : Apart (es ++ [e.withMembers ms]) := ha.revise rfl
  obtain ⟨g, hg, hfig⟩ := h.standing.depicts.exists_group
  have hname : g.name = e.name := congrArg Figure.name hfig
  have hid := h.standing.groupId?_eq hg
  rw [hname] at hid
  unfold Node.addMember at ht ⊢
  rw [hid] at ht ⊢
  cases hw : wildcardStem? x with
  | none =>
    rw [hw] at ht
    have hasks := fun p r => e.asks_snoc ms hw p r
    have hr : Revises (fun _ => ∅) (bound (es ++ [e.withMembers ms]) (links.filter (·.up)))
        (Figure.join x) (e.withMembers ms) (e.withMembers (ms ++ [x])) := ⟨rfl, rfl, plain_join hw⟩
    exact h.addConcreteMember hl ha hr hasks hg hname
      (fun t id ht hx hin => addMember_destination ht hx hin) ht
  | some stem =>
    have hasks := fun p r => e.asks_snoc_wildcard ms hw p r
    obtain ⟨m, hm, hstem, hgroup, hrole⟩ :=
      addMatcher_destination h.standing.depicts.settled.sound hg stem
    have hd : Draws n.topology []
        (Figure.when (· = e.name) (fun F => F) '' n.topology.picture) n.topology := by
      rw [when_id_image]
      exact .self h.standing.depicts.settled
    have hr : Revises (fun _ => ∅) (bound (es ++ [e.withMembers ms]) (links.filter (·.up)))
        (fun F => F) (e.withMembers ms) (e.withMembers (ms ++ [x])) := ⟨rfl, rfl, plain_wildcard hw⟩
    exact h.addWildcardMember hl ha hr hasks
      ⟨m, n.topology, hm, hstem, hgroup.trans hname, hrole, hd⟩ fun hr => by cases hr

end MulticastRelay.Config
