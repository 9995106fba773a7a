import MulticastRelay.Config.Basic
import MulticastRelay.Proofs.Topology.Resolution

/-! # The picture that group entries ask for

What a topology shows is a function of the entries applied and of the links bound so far, whatever
the order in which they were bound. One thing does depend on order: the members that an instance
copied from its template when it was made, its seed.
-/
namespace MulticastRelay.Config

open MulticastRelay.Topology

namespace GroupEntry

variable {e : GroupEntry}

/-- The mode that the entry gives its group. -/
def modeRead (e : GroupEntry) : Mode :=
  match Mode.ofToken e.mode with
  | .ok mode => mode
  | .error _ => .push

/-- The stem of a wildcard source. -/
def sourceStem? (e : GroupEntry) : Option String := e.source.bind wildcardStem?

def namedSource? (e : GroupEntry) : Option String :=
  e.source.filter fun s => (wildcardStem? s).isNone

/-- The source and the members that are no wildcards. -/
def named (e : GroupEntry) : Set String :=
  {x | (e.source = some x ∨ x ∈ e.members) ∧ wildcardStem? x = none}

/-- The entry registers a stem in a role. -/
def Asks (e : GroupEntry) (stem : String) : Role → Prop
  | .source => e.sourceStem? = some stem
  | .destination => ∃ w ∈ e.members, wildcardStem? w = some stem

/-- The entry with its group named and nothing in it yet. -/
def bare (e : GroupEntry) : GroupEntry := { e with source := none, members := [] }

def withMembers (e : GroupEntry) (members : List String) : GroupEntry := { e with members }

theorem not_asks_bare {stem : String} {role : Role} : ¬e.bare.Asks stem role := by
  cases role with
  | source => simp [Asks, sourceStem?, bare]
  | destination => simp [Asks, bare]

theorem asks_named_source {s stem : String} {role : Role} (hs : e.source = some s)
    (hw : wildcardStem? s = none) :
    ¬(e.withMembers []).Asks stem role := by
  cases role with
  | source => simp [Asks, sourceStem?, withMembers, hs, hw]
  | destination => simp [Asks, withMembers]

theorem asks_wildcard_source {s stem : String} (hs : e.source = some s)
    (hw : wildcardStem? s = some stem)
    (p : String) (role : Role) : (e.withMembers []).Asks p role ↔ p = stem ∧ role = .source := by
  cases role with
  | source => simp [Asks, sourceStem?, withMembers, hs, hw, eq_comm]
  | destination => simp [Asks, withMembers]

theorem asks_snoc (e : GroupEntry) (ms : List String) {x : String} (hw : wildcardStem? x = none)
    (p : String) (role : Role) :
    (e.withMembers (ms ++ [x])).Asks p role ↔ (e.withMembers ms).Asks p role := by
  cases role with
  | source => exact Iff.rfl
  | destination =>
    simp only [Asks, withMembers, List.mem_append, List.mem_singleton]
    constructor
    · rintro ⟨w, hin | rfl, h⟩
      · exact ⟨w, hin, h⟩
      · rw [hw] at h
        cases h
    · rintro ⟨w, hin, h⟩
      exact ⟨w, .inl hin, h⟩

theorem asks_snoc_wildcard (e : GroupEntry) (ms : List String) {x stem : String}
    (hw : wildcardStem? x = some stem) (p : String)
    (role : Role) : (e.withMembers (ms ++ [x])).Asks p role ↔
      (e.withMembers ms).Asks p role ∨ p = stem ∧ role = .destination := by
  cases role with
  | source => simp [Asks, sourceStem?, withMembers]
  | destination =>
    simp only [Asks, withMembers, List.mem_append, List.mem_singleton, and_true]
    constructor
    · rintro ⟨w, hin | rfl, h⟩
      · exact .inl ⟨w, hin, h⟩
      · rw [hw] at h
        exact .inr (Option.some.inj h).symm
    · rintro (⟨w, hin, h⟩ | rfl)
      · exact ⟨w, .inl hin, h⟩
      · exact ⟨x, .inr rfl, hw⟩

theorem named_bare : e.bare.named = ∅ := by
  ext x
  simp [named, bare]

theorem named_source {s : String} (hs : e.source = some s) (hw : wildcardStem? s = none) :
    (e.withMembers []).named = {s} := by
  ext x
  simp only [named, withMembers, hs, Set.mem_ofPred_eq, List.not_mem_nil, or_false,
    Option.some.injEq, Set.mem_singleton_iff]
  constructor
  · exact fun h => h.1.symm
  · rintro rfl
    exact ⟨rfl, hw⟩

theorem named_wildcard_source {s stem : String} (hs : e.source = some s)
    (hw : wildcardStem? s = some stem) :
    (e.withMembers []).named = ∅ := by
  refine Set.eq_empty_of_forall_notMem fun x hx => ?_
  obtain ⟨hin, hn⟩ := hx
  have hin := hin.resolve_right List.not_mem_nil
  cases hs.symm.trans hin
  rw [hw] at hn
  cases hn

theorem named_snoc {ms : List String} {x : String} (hw : wildcardStem? x = none) :
    (e.withMembers (ms ++ [x])).named = insert x (e.withMembers ms).named := by
  ext y
  simp only [named, withMembers, Set.mem_ofPred_eq, List.mem_append, List.mem_singleton,
    Set.mem_insert_iff]
  constructor
  · rintro ⟨h | h | rfl, hn⟩
    · exact .inr ⟨.inl h, hn⟩
    · exact .inr ⟨.inr h, hn⟩
    · exact .inl rfl
  · rintro (rfl | ⟨h | h, hn⟩)
    · exact ⟨.inr (.inr rfl), hw⟩
    · exact ⟨.inl h, hn⟩
    · exact ⟨.inr (.inl h), hn⟩

theorem named_snoc_wildcard {ms : List String} {x stem : String}
    (hw : wildcardStem? x = some stem) :
    (e.withMembers (ms ++ [x])).named = (e.withMembers ms).named := by
  ext y
  simp only [named, withMembers, Set.mem_ofPred_eq, List.mem_append, List.mem_singleton]
  refine and_congr_left fun hn => or_congr_right ⟨fun h => h.resolve_right ?_, .inl⟩
  rintro rfl
  rw [hw] at hn
  cases hn

end GroupEntry

/-- A group, a role in it, and the name of a link bound to it in that role. -/
abbrev Binding := String × Role × String

def boundTo (B : Set Binding) (group : String) (role : Role) : Set String :=
  {x | (group, role, x) ∈ B}

/-- The group of an entry. -/
def plain (e : GroupEntry) (B : Set Binding) : Figure :=
  ⟨e.name, e.modeRead, e.sourceStem?.isSome, e.namedSource?,
    e.named ∪ boundTo B e.name .destination⟩

/-- The instance of a template for a source, which copied the members of its seed. -/
def made (e : GroupEntry) (seed : Set String) (B : Set Binding) (s : String) : Figure :=
  ⟨instanceName e.name s, .push, false, some s, insert s (seed ∪ boundTo B e.name .destination)⟩

def portrait (es : List GroupEntry) (seed : GroupEntry → Set String) (B : Set Binding) :
    Set Figure :=
  {F | ∃ e ∈ es, F = plain e B ∨ ∃ s ∈ boundTo B e.name .source, F = made e (seed e) B s}

/-- No group has the name of another, or of an instance of another. -/
def Apart (es : List GroupEntry) : Prop :=
  es.Pairwise fun e f => ¬InFamily e.name f.name ∧ ¬InFamily f.name e.name

variable {es : List GroupEntry} {e f : GroupEntry} {seed : GroupEntry → Set String}
  {B C : Set Binding}
  {group name x s : String} {role r : Role} {F : Figure}

theorem Apart.eq (h : Apart es) (he : e ∈ es) (hf : f ∈ es) (hn : InFamily e.name f.name) :
    e = f := by
  have hall : ∀ e ∈ es, ∀ f ∈ es, InFamily e.name f.name → e = f := by
    refine List.Pairwise.forall_of_forall_of_flip (fun _ _ _ => rfl) (h.imp ?_) (h.imp ?_)
    · exact fun hp hn => absurd hn hp.1
    · exact fun hp hn => absurd hn hp.2
  exact hall e he f hf hn

/-- A name in the families of two entries is in the family of one. -/
theorem Apart.eq_of_common (h : Apart es) (he : e ∈ es) (hf : f ∈ es) (hen : InFamily e.name name)
    (hfn : InFamily f.name name) : e = f := by
  rcases nested_of_common hen hfn with hn | hn
  · exact h.eq he hf hn
  · exact (h.eq hf he hn).symm

theorem mem_boundTo_insert :
    x ∈ boundTo (insert (group, role, s) B) name r ↔
      name = group ∧ r = role ∧ x = s ∨ x ∈ boundTo B name r := by
  simp [boundTo, Set.mem_ofPred_eq, Set.mem_insert_iff]

/-- Binding a link to another group or in another role changes nothing here. -/
theorem boundTo_insert_of_ne (h : ¬(name = group ∧ r = role)) :
    boundTo (insert (group, role, s) B) name r = boundTo B name r := by
  ext x
  rw [mem_boundTo_insert]
  constructor
  · rintro (⟨hn, hr, -⟩ | hx)
    · exact absurd ⟨hn, hr⟩ h
    · exact hx
  · exact .inr

theorem boundTo_insert_self :
    boundTo (insert (group, role, s) B) group role = insert s (boundTo B group role) := by
  ext x
  rw [mem_boundTo_insert]
  simp

/-! ## Binding one link -/

theorem plain_congr (h : boundTo B e.name .destination = boundTo C e.name .destination) :
    plain e B = plain e C := by
  unfold plain
  rw [h]

theorem made_congr {seed : Set String}
    (h : boundTo B e.name .destination = boundTo C e.name .destination) :
    made e seed B s = made e seed C s := by
  unfold made
  rw [h]

/-- A destination joins the group and its instances, and no other group. -/
theorem join_portrait (ha : Apart es) (he : e ∈ es) :
    Figure.when (InFamily e.name) (Figure.join x) '' portrait es seed B =
      portrait es seed (insert (e.name, .destination, x) B) := by
  have hsource : ∀ f : GroupEntry, boundTo (insert (e.name, .destination, x) B) f.name .source =
      boundTo B f.name .source := fun f => boundTo_insert_of_ne fun h => by cases h.2
  have hother : ∀ f ∈ es, f ≠ e → boundTo (insert (e.name, .destination, x) B) f.name .destination =
      boundTo B f.name .destination := fun f hf hne =>
    boundTo_insert_of_ne fun h => hne (ha.eq he hf (h.1 ▸ inFamily_self _)).symm
  have hplain : ∀ f ∈ es, Figure.when (InFamily e.name) (Figure.join x) (plain f B) =
      plain f (insert (e.name, .destination, x) B) := by
    intro f hf
    unfold Figure.when
    by_cases hfe : f = e
    · subst hfe
      rw [if_pos (show InFamily f.name (plain f B).name from inFamily_self _)]
      refine Figure.ext rfl rfl rfl rfl ?_
      simp only [plain, Figure.join, boundTo_insert_self, Set.union_insert]
    · rw [if_neg (show ¬InFamily e.name (plain f B).name from fun h => hfe (ha.eq he hf h).symm)]
      exact plain_congr (hother f hf hfe).symm
  have hmade : ∀ f ∈ es, ∀ s, Figure.when (InFamily e.name) (Figure.join x) (made f (seed f) B s) =
      made f (seed f) (insert (e.name, .destination, x) B) s := by
    intro f hf s
    unfold Figure.when
    by_cases hfe : f = e
    · subst hfe
      rw [if_pos (show InFamily f.name (made f (seed f) B s).name from inFamily_instance _ _)]
      refine Figure.ext rfl rfl rfl rfl ?_
      simp only [made, Figure.join, boundTo_insert_self, Set.union_insert, Set.insert_comm]
    · have hn : ¬InFamily e.name (made f (seed f) B s).name := fun h =>
        hfe (ha.eq_of_common he hf h (inFamily_instance _ _)).symm
      rw [if_neg hn]
      exact made_congr (hother f hf hfe).symm
  ext F
  constructor
  · rintro ⟨_, ⟨f, hf, rfl | ⟨s, hs, rfl⟩⟩, rfl⟩
    · exact ⟨f, hf, .inl (hplain f hf)⟩
    · exact ⟨f, hf, .inr ⟨s, hsource f ▸ hs, hmade f hf s⟩⟩
  · rintro ⟨f, hf, rfl | ⟨s, hs, rfl⟩⟩
    · exact ⟨plain f B, ⟨f, hf, .inl rfl⟩, hplain f hf⟩
    · exact ⟨made f (seed f) B s, ⟨f, hf, .inr ⟨s, hsource f ▸ hs, rfl⟩⟩, hmade f hf s⟩

theorem portrait_insert_source (ha : Apart es) (he : e ∈ es) :
    portrait es seed (insert (e.name, .source, s) B) =
      insert (made e (seed e) B s) (portrait es seed B) := by
  have hdest : ∀ f : GroupEntry, boundTo (insert (e.name, .source, s) B) f.name .destination =
      boundTo B f.name .destination := fun f => boundTo_insert_of_ne fun h => by cases h.2
  ext F
  constructor
  · rintro ⟨f, hf, rfl | ⟨y, hy, rfl⟩⟩
    · exact .inr ⟨f, hf, .inl (plain_congr (hdest f))⟩
    · rw [made_congr (hdest f)]
      rcases mem_boundTo_insert.1 hy with ⟨hn, -, rfl⟩ | hy
      · cases ha.eq he hf (hn ▸ inFamily_self _)
        exact .inl rfl
      · exact .inr ⟨f, hf, .inr ⟨y, hy, rfl⟩⟩
  · rintro (rfl | ⟨f, hf, rfl | ⟨y, hy, rfl⟩⟩)
    · refine ⟨e, he, .inr ⟨s, mem_boundTo_insert.2 (.inl ⟨rfl, rfl, rfl⟩),
        made_congr (hdest e).symm⟩⟩
    · exact ⟨f, hf, .inl (plain_congr (hdest f)).symm⟩
    · exact ⟨f, hf, .inr ⟨y, mem_boundTo_insert.2 (.inr hy), (made_congr (hdest f)).symm⟩⟩

/-- A template is copied with what it has so far. -/
theorem plain_instantiate (h : seed e = e.named) :
    (plain e B).instantiate s = made e (seed e) B s := by
  rw [h]
  rfl

/-- An instance has the name of its template and its source. -/
theorem mem_of_instanceName (ha : Apart es) (he : e ∈ es) (hF : F ∈ portrait es seed B)
    (hn : F.name = instanceName e.name s) :
    s ∈ boundTo B e.name .source ∧ F = made e (seed e) B s := by
  obtain ⟨f, hf, rfl | ⟨y, hy, rfl⟩⟩ := hF
  · have hfam : InFamily e.name f.name := .inr ⟨s, hn⟩
    cases ha.eq he hf hfam
    exact absurd hn.symm (instanceName_ne _ _)
  · have hn : instanceName f.name y = instanceName e.name s := hn
    have hfam : InFamily e.name (instanceName f.name y) := .inr ⟨s, hn⟩
    cases ha.eq_of_common he hf hfam (inFamily_instance _ _)
    cases instanceName_inj hn
    exact ⟨hy, rfl⟩

/-! ## Filling the last entry -/

theorem Apart.last (h : Apart (es ++ [e])) (hf : f ∈ es) : ¬InFamily f.name e.name :=
  ((List.pairwise_append.1 h).2.2 f hf e (List.mem_singleton_self e)).1

theorem Apart.revise {e' : GroupEntry} (h : Apart (es ++ [e])) (hn : e'.name = e.name) :
    Apart (es ++ [e']) := by
  obtain ⟨hes, -, hlast⟩ := List.pairwise_append.1 h
  refine List.pairwise_append.2 ⟨hes, List.pairwise_singleton _ _, fun f hf g hg => ?_⟩
  rw [List.mem_singleton.1 hg, hn]
  exact hlast f hf e (List.mem_singleton_self e)

/-- The group of the last entry is the only one of its name. -/
theorem name_ne_of_last (ha : Apart (es ++ [e])) (hF : F ∈ portrait es seed B) :
    F.name ≠ e.name := by
  obtain ⟨f, hf, rfl | ⟨s, -, rfl⟩⟩ := hF
  · intro hn
    have hn : f.name = e.name := hn
    exact ha.last hf (hn ▸ inFamily_self _)
  · intro hn
    exact ha.last hf (.inr ⟨s, hn.symm⟩)

theorem portrait_bare (h : ∀ role, boundTo B e.name role = ∅) :
    portrait (es ++ [e.bare]) seed B =
      insert ⟨e.name, e.modeRead, false, none, ∅⟩ (portrait es seed B) := by
  have hplain : plain e.bare B = ⟨e.name, e.modeRead, false, none, ∅⟩ := by
    refine Figure.ext rfl rfl rfl rfl ?_
    have hb : boundTo B e.bare.name .destination = ∅ := h .destination
    simp only [plain, GroupEntry.named_bare, hb, Set.union_empty]
  ext F
  constructor
  · rintro ⟨f, hf, hF⟩
    rcases List.mem_append.1 hf with hf | hf
    · exact .inr ⟨f, hf, hF⟩
    · cases List.mem_singleton.1 hf
      rcases hF with rfl | ⟨s, hs, -⟩
      · exact .inl hplain
      · have hs : s ∈ boundTo B e.name .source := hs
        rw [h .source] at hs
        exact absurd hs (Set.notMem_empty s)
  · rintro (rfl | ⟨f, hf, hF⟩)
    · exact ⟨e.bare, List.mem_append_right _ (List.mem_singleton_self _), .inl hplain.symm⟩
    · exact ⟨f, List.mem_append_left _ hf, hF⟩

/-- A change of the last entry that leaves its instances changes one figure. -/
theorem revise_portrait {e' : GroupEntry} {ψ : Figure → Figure} (ha : Apart (es ++ [e]))
    (hn : e'.name = e.name) (hs : seed e' = seed e) (hψ : ψ (plain e B) = plain e' B) :
    Figure.when (· = e.name) ψ '' portrait (es ++ [e]) seed B = portrait (es ++ [e']) seed B := by
  have hmade : ∀ s, made e' (seed e') B s = made e (seed e) B s := by
    intro s
    unfold made
    rw [hn, hs]
  have hself : Figure.when (· = e.name) ψ (plain e B) = plain e' B := by
    rw [← hψ]
    exact if_pos rfl
  have hinst : ∀ s, Figure.when (· = e.name) ψ (made e (seed e) B s) = made e (seed e) B s :=
    fun s =>
    if_neg (instanceName_ne e.name s)
  have hrest : ∀ F ∈ portrait es seed B, Figure.when (· = e.name) ψ F = F := fun F hF =>
    if_neg (name_ne_of_last ha hF)
  ext F
  constructor
  · rintro ⟨_, ⟨f, hf, hF⟩, rfl⟩
    rcases List.mem_append.1 hf with hf | hf
    · rw [hrest _ ⟨f, hf, hF⟩]
      exact ⟨f, List.mem_append_left _ hf, hF⟩
    · cases List.mem_singleton.1 hf
      refine ⟨e', List.mem_append_right _ (List.mem_singleton_self _), ?_⟩
      rcases hF with rfl | ⟨s, hin, rfl⟩
      · exact .inl hself
      · exact .inr ⟨s, hn.symm ▸ hin, (hinst s).trans (hmade s).symm⟩
  · rintro ⟨f, hf, hF⟩
    rcases List.mem_append.1 hf with hf | hf
    · exact ⟨F, ⟨f, List.mem_append_left _ hf, hF⟩, hrest F ⟨f, hf, hF⟩⟩
    · cases List.mem_singleton.1 hf
      rcases hF with rfl | ⟨s, hin, rfl⟩
      · exact ⟨plain e B, ⟨e, List.mem_append_right _ (List.mem_singleton_self _), .inl rfl⟩, hself⟩
      · refine ⟨made e (seed e) B s,
          ⟨e, List.mem_append_right _ (List.mem_singleton_self _), .inr ⟨s, ?_, rfl⟩⟩,
          (hinst s).trans (hmade s).symm⟩
        exact hn ▸ hin

theorem plain_aim (hs : e.source = some s) (hw : wildcardStem? s = none) :
    (plain e.bare B).aim s = plain (e.withMembers []) B := by
  refine Figure.ext rfl rfl ?_ ?_ ?_
  · simp [plain, Figure.aim, GroupEntry.sourceStem?, GroupEntry.withMembers, hs, hw]
  · simp [plain, Figure.aim, GroupEntry.namedSource?, GroupEntry.withMembers, hs, Option.filter, hw]
  · have hset : insert s (∅ ∪ boundTo B e.name .destination) =
        {s} ∪ boundTo B e.name .destination := by
      rw [Set.empty_union, Set.insert_eq]
    rw [← GroupEntry.named_bare (e := e), ← GroupEntry.named_source hs hw] at hset
    exact hset

theorem plain_makeTemplate {stem : String} (hs : e.source = some s)
    (hw : wildcardStem? s = some stem) :
    (plain e.bare B).makeTemplate = plain (e.withMembers []) B := by
  have hset : e.bare.named = (e.withMembers []).named :=
    GroupEntry.named_bare.trans (GroupEntry.named_wildcard_source hs hw).symm
  refine Figure.ext rfl rfl ?_ ?_ (congrArg (· ∪ boundTo B e.name .destination) hset)
  · simp [plain, Figure.makeTemplate, GroupEntry.sourceStem?, GroupEntry.withMembers, hs, hw]
  · simp [plain, Figure.makeTemplate, GroupEntry.namedSource?, GroupEntry.withMembers, hs,
      Option.filter, hw]

theorem plain_join {ms : List String} (hw : wildcardStem? x = none) :
    (plain (e.withMembers ms) B).join x = plain (e.withMembers (ms ++ [x])) B := by
  refine Figure.ext rfl rfl rfl rfl ?_
  have hset : insert x ((e.withMembers ms).named ∪ boundTo B e.name .destination) =
      (e.withMembers (ms ++ [x])).named ∪ boundTo B e.name .destination := by
    rw [GroupEntry.named_snoc hw, Set.insert_union]
  exact hset

theorem plain_wildcard {ms : List String} {stem : String} (hw : wildcardStem? x = some stem) :
    plain (e.withMembers ms) B = plain (e.withMembers (ms ++ [x])) B :=
  Figure.ext rfl rfl rfl rfl
    (congrArg (· ∪ boundTo B e.name .destination) (GroupEntry.named_snoc_wildcard (e := e) hw).symm)

end MulticastRelay.Config
