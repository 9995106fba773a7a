import MulticastRelay.Proofs.Config.Portrait
import MulticastRelay.Proofs.Topology.Links

/-! # Binding links

Resolving a matcher against a link adds one binding to the portrait, whenever that happens. So a
scan of the links that are up and a link that comes up later add the same bindings.
-/
namespace MulticastRelay.Config

open MulticastRelay.Topology

/-- The bindings that entries ask for on some links. -/
def bound (es : List GroupEntry) (ls : List Link) : Set Binding :=
  {b | ∃ e ∈ es, ∃ l ∈ ls, ∃ stem role, e.Asks stem role ∧ isStemOf stem l.name = true ∧
    b = (e.name, role, l.name)}

/-- The bindings of one stem on some links. -/
def scan (group stem : String) (role : Role) (ls : List Link) : Set Binding :=
  {b | ∃ l ∈ ls, isStemOf stem l.name = true ∧ b = (group, role, l.name)}

section Bound

variable {es : List GroupEntry} {ls : List Link} {e e' : GroupEntry} {stem : String} {role : Role}
  {l : Link}

theorem bound_nil_entries : bound [] ls = ∅ := by
  ext b
  simp [bound]

theorem bound_nil : bound es [] = ∅ := by
  ext b
  simp [bound]

theorem bound_cons : bound es (l :: ls) = bound es [l] ∪ bound es ls := by
  ext b
  constructor
  · rintro ⟨e, he, k, hk, h⟩
    rcases List.mem_cons.1 hk with rfl | hk
    · exact .inl ⟨e, he, k, List.mem_singleton_self k, h⟩
    · exact .inr ⟨e, he, k, hk, h⟩
  · rintro (⟨e, he, k, hk, h⟩ | ⟨e, he, k, hk, h⟩)
    · exact ⟨e, he, k, List.mem_cons.2 (.inl (List.mem_singleton.1 hk)), h⟩
    · exact ⟨e, he, k, List.mem_cons_of_mem _ hk, h⟩

theorem bound_congr {ks : List Link}
    (h : ∀ name, (∃ l ∈ ls, l.name = name) ↔ ∃ k ∈ ks, k.name = name) :
    bound es ls = bound es ks := by
  have hle : ∀ {xs ys : List Link}, (∀ x ∈ xs, ∃ y ∈ ys, y.name = x.name) →
      bound es xs ⊆ bound es ys := by
    rintro xs ys hxy _ ⟨e, he, x, hx, stem, role, ha, hs, rfl⟩
    obtain ⟨y, hy, hn⟩ := hxy x hx
    exact ⟨e, he, y, hy, stem, role, ha, hn ▸ hs, by rw [hn]⟩
  refine Set.Subset.antisymm (hle fun l hl => ?_) (hle fun k hk => ?_)
  · exact (h l.name).1 ⟨l, hl, rfl⟩
  · exact (h k.name).2 ⟨k, hk, rfl⟩

theorem boundTo_bound_last (h : Apart (es ++ [e])) : boundTo (bound es ls) e.name role = ∅ := by
  refine Set.eq_empty_of_forall_notMem fun x hx => ?_
  obtain ⟨f, hf, l, -, stem, r, -, -, hb⟩ := hx
  exact h.last hf ((Prod.mk.inj hb).1 ▸ inFamily_self _)

/-- What is bound to the group of an entry is what that entry asks for. -/
theorem mem_boundTo_bound {x : String} (ha : Apart es) (he : e ∈ es) :
    x ∈ boundTo (bound es ls) e.name role ↔
      ∃ l ∈ ls, ∃ stem, e.Asks stem role ∧ isStemOf stem l.name = true ∧ l.name = x := by
  constructor
  · rintro ⟨f, hf, l, hl, stem, r, hasks, hs, hb⟩
    obtain ⟨hn, hb⟩ := Prod.mk.inj hb
    obtain ⟨rfl, rfl⟩ := Prod.mk.inj hb
    cases ha.eq he hf (hn ▸ inFamily_self _)
    exact ⟨l, hl, stem, hasks, hs, rfl⟩
  · rintro ⟨l, hl, stem, hasks, hs, rfl⟩
    exact ⟨e, he, l, hl, stem, role, hasks, hs, rfl⟩

theorem bound_append : bound (es ++ [e]) ls = bound es ls ∪ bound [e] ls := by
  ext b
  constructor
  · rintro ⟨f, hf, h⟩
    rcases List.mem_append.1 hf with hf | hf
    · exact .inl ⟨f, hf, h⟩
    · exact .inr ⟨f, hf, h⟩
  · rintro (⟨f, hf, h⟩ | ⟨f, hf, h⟩)
    · exact ⟨f, List.mem_append_left _ hf, h⟩
    · exact ⟨f, List.mem_append_right _ hf, h⟩

theorem bound_same (hn : e'.name = e.name) (h : ∀ p r, e'.Asks p r ↔ e.Asks p r) :
    bound (es ++ [e']) ls = bound (es ++ [e]) ls := by
  rw [bound_append, bound_append]
  congr 1
  ext b
  constructor
  · rintro ⟨f, hf, l, hl, p, r, ha, hb⟩
    cases List.mem_singleton.1 hf
    exact ⟨e, List.mem_singleton_self e, l, hl, p, r, (h p r).1 ha, hn ▸ hb⟩
  · rintro ⟨f, hf, l, hl, p, r, ha, hb⟩
    cases List.mem_singleton.1 hf
    exact ⟨e', List.mem_singleton_self e', l, hl, p, r, (h p r).2 ha, hn.symm ▸ hb⟩

/-- An entry that asks for one stem more gets what a scan for that stem finds. -/
theorem bound_more (hn : e'.name = e.name)
    (h : ∀ p r, e'.Asks p r ↔ e.Asks p r ∨ p = stem ∧ r = role) :
    bound (es ++ [e']) ls = bound (es ++ [e]) ls ∪ scan e.name stem role ls := by
  rw [bound_append, bound_append, Set.union_assoc]
  congr 1
  ext b
  constructor
  · rintro ⟨f, hf, l, hl, p, r, ha, hs, hb⟩
    cases List.mem_singleton.1 hf
    rw [hn] at hb
    rcases (h p r).1 ha with ha | ⟨rfl, rfl⟩
    · exact .inl ⟨e, List.mem_singleton_self e, l, hl, p, r, ha, hs, hb⟩
    · exact .inr ⟨l, hl, hs, hb⟩
  · rintro (⟨f, hf, l, hl, p, r, ha, hs, hb⟩ | ⟨l, hl, hs, hb⟩)
    · cases List.mem_singleton.1 hf
      exact ⟨e', List.mem_singleton_self e', l, hl, p, r, (h p r).2 (.inl ha), hs, hn.symm ▸ hb⟩
    · exact ⟨e', List.mem_singleton_self e', l, hl, stem, role, (h stem role).2 (.inr ⟨rfl, rfl⟩),
        hs, hn.symm ▸ hb⟩

end Bound

/-- A settled topology that shows the portrait of some entries and has their wildcards registered.
-/
structure Depicts (links : List Link) (top : Nat) (es : List GroupEntry)
    (seed : GroupEntry → Set String) (B : Set Binding) (t : Topology) : Prop where
  settled : Settled t
  picture : t.picture = portrait es seed B
  rules : ∀ stem group role, t.matchers.Holds stem group role ↔
    ∃ e ∈ es, e.name = group ∧ e.Asks stem role
  placed : Placed links top t

variable {links ls : List Link} {top : Nat} {es : List GroupEntry} {seed : GroupEntry → Set String}
  {B : Set Binding} {t u : Topology} {e : GroupEntry} {m : Matcher} {l : Link} {id : InterfaceId}
  {name : String}

/-- An instance keeps what it copied when it was made, so the seed of a template that still gets
instances has to be what it holds now. -/
def Seeds (seed : GroupEntry → Set String) (e : GroupEntry) : Prop :=
  e.modeRead = .push ∧ seed e = e.named

/-- An operation that draws another portrait of the same rules. -/
theorem Depicts.redraw {es' : List GroupEntry} {C : Set Binding} (h : Depicts links top es seed B t)
    (hd : Draws t [] (portrait es' seed C) u)
    (hasks : ∀ stem group role, (∃ e ∈ es', e.name = group ∧ e.Asks stem role) ↔
      ∃ e ∈ es, e.name = group ∧ e.Asks stem role) : Depicts links top es' seed C u where
  settled := hd.settled
  picture := hd.picture
  rules stem group role := by rw [hd.matchers, h.rules, hasks]
  placed := h.placed.of_naming hd.naming

theorem Depicts.addInterface {top' : Nat} (h : Depicts links top es seed B t) (hf : t.Fits id name)
    (hp : Placed links top' (t.addInterface id name)) :
    Depicts links top' es seed B (t.addInterface id name) where
  settled := addInterface_settled h.settled hf
  picture := ((addInterface_extends h.settled.sound hf).picture_eq h.settled.sound).trans h.picture
  rules stem group role := by
    rw [(addInterface_extends h.settled.sound hf).matchers]
    exact h.rules stem group role
  placed := hp

theorem Depicts.addLink (h : Depicts links top es seed B t) (hl : LinkNames links)
    (hb : Node.syntheticBase ≤ top) (hk : Listed links l) :
    Depicts links top es seed B (t.addInterface ⟨l.index⟩ l.name) :=
  h.addInterface (h.placed.fits l hk) (h.placed.addLink hl hb h.settled.sound hk)

theorem Depicts.resolve (h : Depicts links top es seed B t) (hl : LinkNames links)
    (hb : Node.syntheticBase ≤ top) (ha : Apart es) (he : e ∈ es) (hm : m.group = e.name)
    (hs : m.role = .source → Seeds seed e) (hk : Listed links l) :
    Depicts links top es seed (insert (e.name, m.role, l.name) B) (t.resolve m l).2 := by
  have hf := h.placed.fits l hk
  have hplain : plain e B ∈ portrait es seed B := ⟨e, he, .inl rfl⟩
  cases hr : m.role with
  | destination =>
    have hd := resolve_destination h.settled hf hr (h.picture ▸ hplain)
      (hm.symm ▸ inFamily_self e.name : InFamily m.group (plain e B).name)
    rw [h.picture, hm, join_portrait ha he] at hd
    exact (h.addLink hl hb hk).redraw hd fun _ _ _ => Iff.rfl
  | source =>
    obtain ⟨hpush, hseed⟩ := hs hr
    have ht := addInterface_settled h.settled hf
    have hx := nameOf?_addInterface_self h.settled.sound hf
    have hp :=
      ((addInterface_extends h.settled.sound hf).picture_eq h.settled.sound).trans h.picture
    have hmem : made e (seed e) B l.name ∈
        portrait es seed (insert (e.name, .source, l.name) B) := by
      rw [portrait_insert_source ha he]
      exact Set.mem_insert _ _
    refine (h.addLink hl hb hk).redraw (resolve_source h.settled hf hr ?_ hmem (Set.mem_insert _ _))
      fun _ _ _ => Iff.rfl
    rw [hm]
    by_cases hin : l.name ∈ boundTo B e.name .source
    · have hF : made e (seed e) B l.name ∈ (t.addInterface ⟨l.index⟩ l.name).picture :=
        hp.symm ▸ ⟨e, he, .inr ⟨l.name, hin, rfl⟩⟩
      have hsame : insert (e.name, Role.source, l.name) B = B := Set.insert_eq_of_mem hin
      rw [hsame, ← hp]
      exact instantiate_again ht hx hF rfl rfl
    · have hF : plain e B ∈ (t.addInterface ⟨l.index⟩ l.name).picture := hp.symm ▸ hplain
      have hnew := instantiate_new ht hx hF hpush fun G hG hn =>
        hin (mem_of_instanceName ha he (hp ▸ hG) hn).1
      rw [plain_instantiate hseed, hp, ← portrait_insert_source ha he] at hnew
      exact hnew

/-! ## Scans and links that come up -/

def bindings (ps : List (Matcher × Link)) : Set Binding :=
  {b | ∃ p ∈ ps, b = (p.1.group, p.1.role, p.2.name)}

theorem Depicts.resolveAll {ps : List (Matcher × Link)} (h : Depicts links top es seed B t)
    (hl : LinkNames links) (hb : Node.syntheticBase ≤ top) (ha : Apart es)
    (hk : ∀ p ∈ ps, Listed links p.2)
    (hm : ∀ p ∈ ps, ∃ e ∈ es, e.name = p.1.group ∧ (p.1.role = .source → Seeds seed e)) :
    Depicts links top es seed (B ∪ bindings ps) (t.resolveAll ps) := by
  induction ps generalizing t B with
  | nil =>
    have hB : B ∪ bindings [] = B := by
      ext b
      simp [bindings]
    rw [hB]
    exact h
  | cons p ps ih =>
    obtain ⟨e, he, hname, hs⟩ := hm p List.mem_cons_self
    have hone := h.resolve hl hb ha he hname.symm hs (hk p List.mem_cons_self)
    have hB : B ∪ bindings (p :: ps) = insert (e.name, p.1.role, p.2.name) B ∪ bindings ps := by
      ext b
      simp only [bindings, Set.mem_union, Set.mem_insert_iff, Set.mem_ofPred_eq,
        List.exists_mem_cons_iff, hname]
      tauto
    rw [hB]
    exact ih hone (fun q hq => hk q (List.mem_cons_of_mem _ hq)) fun q hq =>
      hm q (List.mem_cons_of_mem _ hq)

/-- A matcher that was registered binds the links that are up and match. -/
theorem Depicts.matchLinks (h : Depicts links top es seed B t) (hl : LinkNames links)
    (hb : Node.syntheticBase ≤ top) (ha : Apart es) (he : e ∈ es) (hm : m.group = e.name)
    (hs : m.role = .source → Seeds seed e) (hk : ∀ l ∈ ls, Listed links l) :
    Depicts links top es seed (B ∪ scan e.name m.stem m.role (ls.filter (·.up)))
      (t.matchLinks m ls).2 := by
  have hB : bindings ((ls.filter fun l => l.up && m.accepts l.name).map (m, ·)) =
      scan e.name m.stem m.role (ls.filter (·.up)) := by
    ext b
    simp only [bindings, scan, Set.mem_ofPred_eq, List.mem_map, List.mem_filter,
      Bool.and_eq_true, ← hm]
    constructor
    · rintro ⟨_, ⟨l, ⟨hin, hu, hacc⟩, rfl⟩, hb⟩
      exact ⟨l, ⟨hin, hu⟩, hacc, hb⟩
    · rintro ⟨l, ⟨hin, hu⟩, hacc, hb⟩
      exact ⟨(m, l), ⟨l, ⟨hin, hu, hacc⟩, rfl⟩, hb⟩
  rw [matchLinks_snd, ← hB]
  refine h.resolveAll hl hb ha (fun p hp => ?_) fun p hp => ?_
  · obtain ⟨l, hin, rfl⟩ := List.mem_map.1 hp
    exact hk l (List.mem_filter.1 hin).1
  · obtain ⟨l, -, rfl⟩ := List.mem_map.1 hp
    exact ⟨e, he, hm.symm, hs⟩

/-- A link that comes up is bound by every matcher that accepts it. -/
theorem Depicts.linkUp (h : Depicts links top es seed B t) (hl : LinkNames links)
    (hb : Node.syntheticBase ≤ top) (ha : Apart es) (hs : ∀ e ∈ es, e.source.isSome → Seeds seed e)
    (hk : Listed links l) (hu : l.up = true) :
    Depicts links top es seed (B ∪ bound es [l]) (t.linkUp l).2 := by
  have hB : bindings ((t.matchers.matching l.name).map (·, l)) = bound es [l] := by
    ext b
    simp only [bindings, bound, Set.mem_ofPred_eq, List.mem_map, List.mem_singleton, exists_eq_left]
    constructor
    · rintro ⟨_, ⟨m, hm, rfl⟩, rfl⟩
      obtain ⟨stem, hholds, hstem⟩ := MatcherTable.exists_mem_matching.1 ⟨m, hm, rfl, rfl⟩
      obtain ⟨e, he, hname, hasks⟩ := (h.rules stem m.group m.role).1 hholds
      exact ⟨e, he, stem, m.role, hasks, hstem, by rw [hname]⟩
    · rintro ⟨e, he, stem, role, hasks, hstem, rfl⟩
      have hholds := (h.rules stem e.name role).2 ⟨e, he, rfl, hasks⟩
      obtain ⟨m, hm, hg, hr⟩ := MatcherTable.exists_mem_matching.2 ⟨stem, hholds, hstem⟩
      exact ⟨(m, l), ⟨m, hm, rfl⟩, by rw [hg, hr]⟩
  rw [linkUp_snd t l hu, ← hB]
  refine h.resolveAll hl hb ha (fun p hp => ?_) fun p hp => ?_
  · obtain ⟨m, -, rfl⟩ := List.mem_map.1 hp
    exact hk
  · obtain ⟨m, hin, rfl⟩ := List.mem_map.1 hp
    obtain ⟨stem, hholds, -⟩ := MatcherTable.exists_mem_matching.1 ⟨m, hin, rfl, rfl⟩
    obtain ⟨e, he, hname, hasks⟩ := (h.rules stem m.group m.role).1 hholds
    refine ⟨e, he, hname, fun hr => hs e he ?_⟩
    rw [hr] at hasks
    obtain ⟨w, hw, -⟩ := Option.bind_eq_some_iff.1 hasks
    rw [hw]
    rfl

end MulticastRelay.Config
