import MulticastRelay.Proofs.Topology.Bindings

/-! # Finding interfaces by name

An interface is found under its name as long as no index is given a name that another interface
bears. The interface that bore the name keeps it then and is no longer found under it: the name
answers for the new index alone. Renaming an interface to a free name, and bringing an index back
under the name it has, do no harm.
-/
namespace MulticastRelay.Topology

variable {t u : Topology} {id : InterfaceId} {name : String} {e : Event} {link : Link}
  {ps : List (Matcher × Link)}

/-- Every interface is found under its name, and no two have one name. -/
structure NamesFound (t : Topology) : Prop where
  found : ∀ i ∈ t.interfaces, t.interfaceNamed? i.name = some i
  distinct : (t.interfaces.map Interface.name).Nodup

theorem Intact.namesFound_iff (h : Intact t) : NamesFound t ↔ Named t := by
  constructor
  · intro hf name id
    constructor
    · intro hh
      obtain ⟨i, hi, hid, rfl⟩ := h.borne name id hh
      exact Option.map_eq_some_iff.2 ⟨i, h.interface?_eq.2 ⟨hi, hid⟩, rfl⟩
    · intro hn
      obtain ⟨i, hi, rfl⟩ := Option.map_eq_some_iff.1 hn
      obtain ⟨him, rfl⟩ := h.interface?_eq.1 hi
      obtain ⟨a, ha, hia⟩ := Option.bind_eq_some_iff.1 (hf.found i him)
      rw [(h.interface?_eq.1 hia).2]
      exact ha
  · intro hn
    have hfound : ∀ i ∈ t.interfaces, t.interfaceNamed? i.name = some i := by
      intro i hi
      have hint : t.interface? i.id = some i := h.interface?_eq.2 ⟨hi, rfl⟩
      have hname : t.nameOf? i.id = some i.name := congrArg (Option.map Interface.name) hint
      exact Option.bind_eq_some_iff.2 ⟨i.id, (hn i.name i.id).2 hname, hint⟩
    refine ⟨hfound, List.Nodup.map_on ?_ (List.Nodup.of_map _ h.ids)⟩
    intro i hi j hj he
    have hij := hfound i hi
    rw [he, hfound j hj] at hij
    exact (Option.some.inj hij).symm

/-! ## One index and one name -/

/-- An interface of another index bears the name. -/
def Borne (t : Topology) (id : InterfaceId) (name : String) : Prop :=
  ∃ i ∈ t.interfaces, i.name = name ∧ i.id ≠ id

theorem Named.freeFor_iff (hn : Named t) (h : Intact t) : t.FreeFor id name ↔ ¬t.Borne id name := by
  constructor
  · rintro hf ⟨i, hi, rfl, hne⟩
    refine hne (hf i.id ((hn _ _).2 ?_))
    exact congrArg (Option.map Interface.name) (h.interface?_eq.2 ⟨hi, rfl⟩)
  · intro hb a ha
    obtain ⟨i, hi, rfl, hname⟩ := h.borne name a ha
    by_contra hne
    exact hb ⟨i, hi, hname, hne⟩

theorem Named.addInterface_iff (hn : Named t) (h : Intact t) :
    Named (t.addInterface id name) ↔ ¬t.Borne id name := by
  rw [← hn.freeFor_iff h]
  constructor
  · intro hu a ha
    by_contra hne
    have hbears : (t.addInterface id name).nameOf? a = some name := by
      rw [h.nameOf?_addInterface, if_neg hne]
      exact (hn name a).1 ha
    have hholds := (hu name a).2 hbears
    rw [holderOf?_rename, if_pos rfl] at hholds
    exact hne (Option.some.inj hholds).symm
  · exact hn.addInterface h

/-- A name that answers for its index already is given to it without effect. -/
theorem Intact.addInterface_again (h : Intact t) (hn : t.nameOf? id = some name)
    (hh : t.holderOf? name = some id) : SameNames t (t.addInterface id name) := by
  constructor
  · intro x
    rw [holderOf?_rename]
    by_cases hx : x = name
    · rw [if_pos hx, hx, hh]
    · rw [if_neg hx, if_neg]
      intro hi
      exact hx (Option.some.inj (hi.symm.trans hn))
  · intro a
    rw [h.nameOf?_addInterface]
    by_cases ha : a = id
    · rw [if_pos ha, ha, hn]
    · rw [if_neg ha]

/-- One link bound by one matcher after the other gets its name once. -/
theorem Intact.resolveAll_again (h : Intact t) (hn : t.nameOf? ⟨link.index⟩ = some link.name)
    (hh : t.holderOf? link.name = some ⟨link.index⟩) (ps : List (Matcher × Link))
    (hps : ∀ p ∈ ps, p.2 = link) : SameNames t (t.resolveAll ps) := by
  induction ps generalizing t with
  | nil => exact .refl t
  | cons p ps ih =>
    obtain ⟨rfl, hps⟩ := List.forall_mem_cons.1 hps
    have hs := (h.addInterface_again hn hh).trans (h.resolve_sameNames p.1 p.2)
    have hrest := ih (h.resolve p.1 p.2) ((hs.naming _).trans hn) ((hs.holders _).trans hh) hps
    exact hs.trans hrest

theorem Intact.resolveAll_sameNames (h : Intact t) (hne : ps ≠ []) (hps : ∀ p ∈ ps, p.2 = link) :
    SameNames (t.addInterface ⟨link.index⟩ link.name) (t.resolveAll ps) := by
  cases ps with
  | nil => exact absurd rfl hne
  | cons p ps =>
    obtain ⟨rfl, hps⟩ := List.forall_mem_cons.1 hps
    have hs := h.resolve_sameNames p.1 p.2
    have hn : (t.resolve p.1 p.2).2.nameOf? ⟨p.2.index⟩ = some p.2.name := by
      rw [hs.naming, h.nameOf?_addInterface, if_pos rfl]
    have hh : (t.resolve p.1 p.2).2.holderOf? p.2.name = some ⟨p.2.index⟩ := by
      rw [hs.holders, holderOf?_rename, if_pos rfl]
    exact hs.trans ((h.resolve p.1 p.2).resolveAll_again hn hh ps hps)

theorem Named.resolveAll_iff (hn : Named t) (h : Intact t) (hps : ∀ p ∈ ps, p.2 = link) :
    Named (t.resolveAll ps) ↔ ¬∃ p ∈ ps, t.Borne ⟨p.2.index⟩ p.2.name := by
  by_cases hne : ps = []
  · subst hne
    exact iff_of_true hn (by simp)
  · have hs := h.resolveAll_sameNames hne hps
    have hsame : Named (t.resolveAll ps) ↔ Named (t.addInterface ⟨link.index⟩ link.name) := by
      constructor
      · intro hu x a
        rw [← hs.holders, ← hs.naming]
        exact hu x a
      · exact hs.named
    rw [hsame, hn.addInterface_iff h, not_iff_not]
    obtain ⟨p, hp⟩ := List.exists_mem_of_ne_nil ps hne
    constructor
    · intro hb
      exact ⟨p, hp, by rwa [hps p hp]⟩
    · rintro ⟨q, hq, hb⟩
      rwa [hps q hq] at hb

/-! ## Events -/

/-- An index is given a name that another interface bears. -/
def Usurps (t : Topology) : Event → Prop
  | .addInterface id name => t.Borne id name
  | e => ∃ p ∈ t.bindings e, t.Borne ⟨p.2.index⟩ p.2.name

/-- A scan taken link by link. -/
def Event.singly : Event → List Event
  | .matchLinks m links => links.map fun l => .matchLinks m [l]
  | e => [e]

theorem bindings_matchLinks_singleton (m : Matcher) (link : Link) :
    ∀ p ∈ t.bindings (.matchLinks m [link]), p.2 = link := by
  intro p hp
  obtain ⟨l, hl, rfl⟩ := List.mem_map.1 hp
  exact List.mem_singleton.1 (List.mem_filter.1 hl).1

theorem bindings_linkUp (link : Link) : ∀ p ∈ t.bindings (.linkUp link), p.2 = link := by
  intro p hp
  unfold bindings at hp
  dsimp only at hp
  split at hp
  · obtain ⟨m, -, rfl⟩ := List.mem_map.1 hp
    rfl
  · exact absurd hp List.not_mem_nil

theorem foldl_singly (e : Event) (t : Topology) : e.singly.foldl next t = t.next e := by
  cases e with
  | matchLinks m links =>
    change (links.map fun l => Event.matchLinks m [l]).foldl next t = t.next (.matchLinks m links)
    rw [next_matchLinks]
    induction links generalizing t with
    | nil => rfl
    | cons l links ih =>
      rw [List.map_cons, List.foldl_cons, ih, next_matchLinks]
      have hb : t.bindings (.matchLinks m (l :: links)) =
          t.bindings (.matchLinks m [l]) ++ t.bindings (.matchLinks m links) := by
        unfold bindings
        simp only [List.filter_cons, List.filter_nil]
        split <;> simp
      rw [hb]
      exact List.foldl_append.symm
  | _ => rfl

theorem after_singly (es : List Event) : after (es.flatMap Event.singly) = after es := by
  induction es using List.reverseRecOn with
  | nil => rfl
  | append_singleton es e ih =>
    rw [List.flatMap_append, List.flatMap_singleton, after_append, ih, foldl_singly, after_concat]

theorem modifyInterface_sameNames {f : Interface → Interface}
    (hf : ∀ i, (f i).id = i.id ∧ (f i).name = i.name) : SameNames t (t.modifyInterface id f) :=
  Recast.sameNames (modifyInterface_recast (fun i _ => (hf i).2) fun i hi => (hf i).1.trans hi)

theorem Named.orSame {α : Type} (hn : Named t) {r : Except TopologyError (α × Topology)}
    (hr : ∀ p, r = .ok p → Named p.2) : Named (t.orSame (r.map (·.2))) := by
  cases r with
  | error _ => exact hn
  | ok p => exact hr p rfl

/-- The only way to an interface that is not found under its name. -/
theorem Named.next_iff (hn : Named t) (h : Intact t)
    (he : ∀ m links, e = .matchLinks m links → ∃ l, links = [l]) :
    Named (t.next e) ↔ ¬t.Usurps e := by
  -- Apart from the interfaces made, no event gives an index a name.
  have hno : t.bindings e = [] → ¬∃ p ∈ t.bindings e, t.Borne ⟨p.2.index⟩ p.2.name := by
    intro hb
    rw [hb]
    rintro ⟨p, hp, -⟩
    exact absurd hp List.not_mem_nil
  have hdress : ∀ (id : InterfaceId) (f : Interface → Interface),
      (∀ i, (f i).id = i.id ∧ (f i).name = i.name) → Named (t.modifyInterface id f) :=
    fun id f hf => (modifyInterface_sameNames hf).named hn
  cases e with
  | addInterface id name => exact hn.addInterface_iff h
  | removeInterface id => exact iff_of_true (hn.removeInterface id) (hno rfl)
  | addAddress id address =>
    refine iff_of_true (hdress id _ fun i => ?_) (hno rfl)
    unfold Interface.addAddress
    split <;> exact ⟨rfl, rfl⟩
  | setNetworkAddress id address => exact iff_of_true (hdress id _ fun _ => ⟨rfl, rfl⟩) (hno rfl)
  | modifyFlags id change => exact iff_of_true (hdress id _ fun _ => ⟨rfl, rfl⟩) (hno rfl)
  | setBinding id binding => exact iff_of_true (hdress id _ fun _ => ⟨rfl, rfl⟩) (hno rfl)
  | addGroup name mode relay =>
    exact iff_of_true ((addGroup_sameNames t name mode relay).named hn) (hno rfl)
  | setGroupPolicy gid policy tunnel resequence =>
    exact iff_of_true ((SameNames.of_interfaces rfl rfl).named hn) (hno rfl)
  | removeGroup gid => exact iff_of_true (hn.orSame fun _ hr => (hn.removeGroup hr).1) (hno rfl)
  | addMember gid id role =>
    refine iff_of_true ?_ (hno rfl)
    change Named (t.orSame (t.addMember gid id role))
    cases hr : t.addMember gid id role with
    | error _ => exact hn
    | ok u => exact (addMember_sameNames hr).named hn
  | removeMember gid id => exact iff_of_true (hn.orSame fun _ hr => (hn.removeMember hr).1) (hno rfl)
  | associate gid => exact iff_of_true ((associate_sameNames t gid).named hn) (hno rfl)
  | addMatcher gid stem role =>
    exact iff_of_true (hn.orSame fun _ hr => (addMatcher_sameNames hr).named hn) (hno rfl)
  | matchLinks m links =>
    obtain ⟨l, rfl⟩ := he m links rfl
    rw [next_matchLinks]
    exact hn.resolveAll_iff h (bindings_matchLinks_singleton m l)
  | linkUp link =>
    rw [next_linkUp]
    exact hn.resolveAll_iff h (bindings_linkUp link)

theorem singly_single {es : List Event} (he : e ∈ es.flatMap Event.singly) {m : Matcher}
    {links : List Link} (hm : e = .matchLinks m links) : ∃ l, links = [l] := by
  obtain ⟨d, -, hd⟩ := List.mem_flatMap.1 he
  subst hm
  cases d with
  | matchLinks n ks =>
    obtain ⟨l, -, hl⟩ := List.mem_map.1 hd
    cases hl
    exact ⟨l, rfl⟩
  | _ => cases List.mem_singleton.1 hd

/-- Scans may be taken link by link. Every interface is found under its name exactly as long as no
index is given a name that another interface bears at that moment. -/
theorem names_found_iff (es : List Event) :
    after (es.flatMap Event.singly) = after es ∧
      (Throughout NamesFound (es.flatMap Event.singly) ↔
        ∀ past e, past ++ [e] <+: es.flatMap Event.singly → ¬(after past).Usurps e) := by
  refine ⟨after_singly es, throughout_iff ⟨fun i hi => absurd hi List.not_mem_nil, List.nodup_nil⟩ ?_⟩
  intro t e he h hf
  rw [(h.next e).intact.namesFound_iff]
  exact (h.intact.namesFound_iff.1 hf).next_iff h.intact fun m links hm => singly_single he hm

/-- A name is given to a second index. -/
theorem second_index_usurps :
    ¬Throughout NamesFound
      ([.addInterface ⟨1⟩ "a", .addInterface ⟨2⟩ "a"].flatMap Event.singly) := by
  intro hall
  refine (names_found_iff _).2.1 hall [.addInterface ⟨1⟩ "a"] (.addInterface ⟨2⟩ "a")
    (List.prefix_refl _) ?_
  exact ⟨.new ⟨1⟩ "a", List.mem_singleton_self _, rfl, by decide⟩

end MulticastRelay.Topology
